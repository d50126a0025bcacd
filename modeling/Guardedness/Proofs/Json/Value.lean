import Guardedness.Json.Reader

/-!
# JSON values

A value is a scalar, an array of values or an object of members, nested to any depth. The members
of an object are kept as they are written, in their order and also if a key is repeated, so that a
value has exactly one sequence of lexemes (`Value.lexemes`).

**Skipping** (`skip?_lexemes`). A value that nobody asked for is skipped, with nothing of it left
and nothing behind it touched. The induction is on the value, for any brackets it may stand in:
behind it, the skipping goes on as behind a single lexeme.
-/

namespace Guardedness

namespace Json

inductive Value where
  | null
  | bool (b : Bool)
  | numeral (n : Numeral)
  | string (text : String)
  | array (items : List Value)
  | object (members : List (String × Value))

namespace Value

mutual

def lexemes : Value → List Lexeme
  | null => [.null]
  | bool b => [.bool b]
  | numeral n => [.numeral n]
  | string text => [.string text]
  | array [] => [.arrayOpen, .arrayClose]
  | array (v :: vs) => .arrayOpen :: (v.lexemes ++ moreItems vs)
  | object [] => [.objectOpen, .objectClose]
  | object ((key, v) :: ms) =>
    .objectOpen :: .string key :: .colon :: (v.lexemes ++ moreMembers ms)

/-- The lexemes of the items behind the first one, and the end of the array. -/
def moreItems : List Value → List Lexeme
  | [] => [.arrayClose]
  | v :: vs => .comma :: (v.lexemes ++ moreItems vs)

/-- The lexemes of the members behind the first one, and the end of the object. -/
def moreMembers : List (String × Value) → List Lexeme
  | [] => [.objectClose]
  | (key, v) :: ms => .comma :: .string key :: .colon :: (v.lexemes ++ moreMembers ms)

end

end Value

variable {v : Value} {inside : List Bracket} {rest ls : List Lexeme} {l : Lexeme} {next : Next}

/-- The lexeme that a value starts with. -/
def Value.first : Value → Lexeme
  | null => .null
  | bool b => .bool b
  | numeral n => .numeral n
  | string text => .string text
  | array _ => .arrayOpen
  | object _ => .objectOpen

theorem Value.exists_lexemes_eq (v : Value) : ∃ ls, v.lexemes = v.first :: ls := by
  cases v with
  | null | bool | numeral | string => exact ⟨_, rfl⟩
  | array vs => cases vs <;> exact ⟨_, rfl⟩
  | object ms => cases ms <;> exact ⟨_, rfl⟩

/-! ## Skipping -/

/-- Go on skipping. -/
def Skipping.goOn? : Skipping → List Lexeme → Option (List Lexeme)
  | finished, ls => some ls
  | within next inside, ls => skipWithin? next inside ls

theorem skipWithin?_cons : skipWithin? next inside (l :: rest) =
    (Skipping.next? next inside l).bind (·.goOn? rest) := by
  rw [skipWithin?]
  cases Skipping.next? next inside l with
  | none => rfl
  | some s => cases s <;> rfl

/-- Where an array may end at once, an item may start as well. -/
theorem skipWithin?_item (v : Value) : skipWithin? .itemOrClose inside (v.lexemes ++ rest) =
    skipWithin? .value inside (v.lexemes ++ rest) := by
  obtain ⟨ls, hls⟩ := v.exists_lexemes_eq
  rw [hls, List.cons_append, skipWithin?_cons, skipWithin?_cons]
  -- Only the end of an array is allowed in one place and not in the other.
  cases v <;> rcases inside with - | ⟨- | -, _⟩ <;> rfl

mutual

theorem skipWithin?_lexemes : ∀ (v : Value) (inside : List Bracket) (rest : List Lexeme),
    skipWithin? .value inside (v.lexemes ++ rest) = (Skipping.ended inside).goOn? rest
  | .null, inside, rest => by rw [Value.lexemes]; exact skipWithin?_cons
  | .bool b, inside, rest => by rw [Value.lexemes]; exact skipWithin?_cons
  | .numeral n, inside, rest => by rw [Value.lexemes]; exact skipWithin?_cons
  | .string text, inside, rest => by rw [Value.lexemes]; exact skipWithin?_cons
  | .array [], inside, rest => by
    rw [Value.lexemes]
    exact skipWithin?_cons.trans skipWithin?_cons
  | .array (v :: vs), inside, rest => by
    rw [Value.lexemes, List.cons_append, List.append_assoc, skipWithin?_cons]
    show skipWithin? .itemOrClose (.array :: inside) _ = _
    rw [skipWithin?_item, skipWithin?_lexemes v]
    exact skipWithin?_moreItems vs inside rest
  | .object [], inside, rest => by
    rw [Value.lexemes]
    exact skipWithin?_cons.trans skipWithin?_cons
  | .object ((key, v) :: ms), inside, rest => by
    rw [Value.lexemes, List.cons_append, List.cons_append, List.cons_append, List.append_assoc,
      skipWithin?_cons]
    show skipWithin? .keyOrClose (.object :: inside) _ = _
    rw [skipWithin?_cons]
    show skipWithin? .colon (.object :: inside) _ = _
    rw [skipWithin?_cons]
    show skipWithin? .value (.object :: inside) _ = _
    rw [skipWithin?_lexemes v]
    exact skipWithin?_moreMembers ms inside rest

theorem skipWithin?_moreItems : ∀ (vs : List Value) (inside : List Bracket) (rest : List Lexeme),
    skipWithin? .commaOrClose (.array :: inside) (Value.moreItems vs ++ rest) =
      (Skipping.ended inside).goOn? rest
  | [], inside, rest => by rw [Value.moreItems]; exact skipWithin?_cons
  | v :: vs, inside, rest => by
    rw [Value.moreItems, List.cons_append, List.append_assoc, skipWithin?_cons]
    show skipWithin? .value (.array :: inside) _ = _
    rw [skipWithin?_lexemes v]
    exact skipWithin?_moreItems vs inside rest

theorem skipWithin?_moreMembers :
    ∀ (ms : List (String × Value)) (inside : List Bracket) (rest : List Lexeme),
    skipWithin? .commaOrClose (.object :: inside) (Value.moreMembers ms ++ rest) =
      (Skipping.ended inside).goOn? rest
  | [], inside, rest => by rw [Value.moreMembers]; exact skipWithin?_cons
  | (key, v) :: ms, inside, rest => by
    rw [Value.moreMembers, List.cons_append, List.cons_append, List.cons_append,
      List.append_assoc, skipWithin?_cons]
    show skipWithin? .key (.object :: inside) _ = _
    rw [skipWithin?_cons]
    show skipWithin? .colon (.object :: inside) _ = _
    rw [skipWithin?_cons]
    show skipWithin? .value (.object :: inside) _ = _
    rw [skipWithin?_lexemes v]
    exact skipWithin?_moreMembers ms inside rest

end

/-- Skipping a value leaves what is behind it. -/
theorem skip?_lexemes (v : Value) (rest : List Lexeme) : skip? (v.lexemes ++ rest) = some rest :=
  skipWithin?_lexemes v [] rest

end Json

end Guardedness
