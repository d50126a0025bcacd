import Guardedness.Token

/-!
# The lexer

A lexer is what is left of a text and the place where that begins. Each step skips blanks and
reads the longest token there is: one punctuation character, a maximal run of letters, or else
one illegal character. At the end every further step gives the end token again, without moving.

**Progress** (`next_shrinks`). A step that does not give the end token leaves less text, so
reading all tokens ends.
-/

namespace Guardedness

/-- A reader of tokens: the unread text and its place. -/
structure Lexer where
  rest : List Char
  position : Position
deriving DecidableEq, Repr

namespace Lexer

/-- A lexer at the start of a text. -/
def ofText (s : String) : Lexer := ⟨s.toList, .start⟩

/-- Read past the first `n` characters. -/
def skip (l : Lexer) (n : Nat) : Lexer := ⟨l.rest.drop n, l.position.after (l.rest.take n)⟩

/-- Read past blanks. -/
def skipBlanks (l : Lexer) : Lexer :=
  ⟨(Scan.blanks l.rest).2, l.position.after (Scan.blanks l.rest).1⟩

/-- The kind and the characters of the longest token at the front of `c :: cs`. -/
def front (c : Char) (cs : List Char) : Token.Kind × List Char :=
  match Scan.symbol? (c :: cs), Scan.word? (c :: cs) with
  | some (k, _), _ => (k, [c])
  | none, some (w, _) => (.ofWord (String.ofList w), w)
  | none, none => (.illegal, [c])

/-- The next token, and the lexer after it. -/
def next (l : Lexer) : Token × Lexer :=
  let here := l.skipBlanks
  match here.rest with
  | [] => (⟨.endOfInput, "", here.position.spanTo here.position⟩, here)
  | c :: cs =>
    let (kind, literal) := front c cs
    let there := here.skip literal.length
    (⟨kind, String.ofList literal, here.position.spanTo there.position⟩, there)

theorem skipBlanks_length_le (l : Lexer) : l.skipBlanks.rest.length ≤ l.rest.length :=
  (List.dropWhile_sublist _).length_le

theorem front_length_pos (c : Char) (cs : List Char) : 0 < (front c cs).2.length := by
  unfold front
  split
  · simp
  · next w _ _ hw => exact Scan.word?_length_pos hw
  · simp

theorem skip_length (l : Lexer) (n : Nat) : (l.skip n).rest.length = l.rest.length - n := by
  simp [skip]

theorem next_shrinks (l : Lexer) (h : l.next.1.kind ≠ .endOfInput) :
    l.next.2.rest.length < l.rest.length := by
  have hb := l.skipBlanks_length_le
  unfold next at h ⊢
  cases hr : l.skipBlanks.rest with
  | nil => simp [hr] at h
  | cons c cs =>
    have hp := front_length_pos c cs
    simp only [hr, skip_length] at hb ⊢
    simp only [List.length_cons] at hb ⊢
    omega

/-- Read all tokens, the end token included, onto `acc`. -/
def tokensOnto (l : Lexer) (acc : Array Token) : Array Token :=
  if _h : l.next.1.kind = .endOfInput then acc.push l.next.1
  else l.next.2.tokensOnto (acc.push l.next.1)
termination_by l.rest.length
decreasing_by exact next_shrinks l ‹_›

/-- All tokens from here on; the end token is the last. -/
def tokens (l : Lexer) : List Token := (l.tokensOnto #[]).toList

end Lexer

end Guardedness
