import Guardedness.Json.Numeral

/-!
# The lexemes of a JSON text

A JSON text is a sequence of brackets, commas, colons, strings, numerals and the three words,
with blanks between them. `lexemes` splits a text up to its end or to the first place where no
lexeme stands, and says which.

**Strings.** A string is read into code units: every character stands for itself, and an escape
by number stands for one code unit of UTF-16. Two escapes in a row can make one character out of
the halves of a surrogate pair. A string with a half that has no partner is a lexeme all the
same, but it has no text.
-/

namespace Guardedness

namespace Json

/-- A lexeme. -/
inductive Lexeme where
  | objectOpen
  | objectClose
  | arrayOpen
  | arrayClose
  | colon
  | comma
  /-- A string; it has no text if half a surrogate pair stands alone in it. -/
  | string (text : Option String)
  | numeral (n : Numeral)
  | bool (b : Bool)
  | null

/-- The characters that separate lexemes. -/
def isBlank (c : Char) : Bool := c == ' ' || c == '\n' || c == '\t' || c == '\r'

/-! ## Strings -/

/-- The character that a backslash and a letter stand for. -/
def escape? : Char → Option Char
  | '"' => some '"'
  | '\\' => some '\\'
  | '/' => some '/'
  | 'b' => some '\x08'
  | 'f' => some '\x0c'
  | 'n' => some '\n'
  | 'r' => some '\r'
  | 't' => some '\t'
  | _ => none

/-- The value of a hexadecimal digit. -/
def hexDigit? (c : Char) : Option Nat :=
  if c.isDigit then some (c.toNat - '0'.toNat)
  else if 'a' ≤ c ∧ c ≤ 'f' then some (c.toNat - 'a'.toNat + 10)
  else if 'A' ≤ c ∧ c ≤ 'F' then some (c.toNat - 'A'.toNat + 10)
  else none

/-- The number that four hexadecimal digits write. -/
def hex? (a b c d : Char) : Option Nat := do
  return (((← hexDigit? a) * 16 + (← hexDigit? b)) * 16 + (← hexDigit? c)) * 16 + (← hexDigit? d)

/-- Read a string after its opening quote: its units, put in front of `units` in reverse, and the
rest of the text. -/
def stringUnits? : List Char → (units : List Nat) → Option (List Nat × List Char)
  | '"' :: rest, units => some (units.reverse, rest)
  | '\\' :: 'u' :: a :: b :: c :: d :: rest, units =>
    match hex? a b c d with
    | some u => stringUnits? rest (u :: units)
    | none => none
  | '\\' :: e :: rest, units =>
    match escape? e with
    | some c => stringUnits? rest (c.toNat :: units)
    | none => none
  | c :: rest, units => if c < ' ' then none else stringUnits? rest (c.toNat :: units)
  | [], _ => none

/-- The first halves of surrogate pairs. -/
def isHighHalf (u : Nat) : Bool := 0xd800 ≤ u && u < 0xdc00

def isLowHalf (u : Nat) : Bool := 0xdc00 ≤ u && u < 0xe000

/-- The characters that units stand for, put in front of `chars` in reverse; nothing if a half of
a surrogate pair stands alone. -/
def ofUnits? : List Nat → (chars : List Char) → Option (List Char)
  | [], chars => some chars.reverse
  | u :: us, chars =>
    if isHighHalf u then
      match us with
      | l :: us =>
        if isLowHalf l then
          ofUnits? us (Char.ofNat ((u - 0xd800) * 0x400 + (l - 0xdc00) + 0x10000) :: chars)
        else none
      | [] => none
    else if isLowHalf u then none
    else ofUnits? us (Char.ofNat u :: chars)

/-- The string after an opening quote, and the rest of the text. -/
def string? (cs : List Char) : Option (Lexeme × List Char) :=
  (stringUnits? cs []).map fun (units, rest) =>
    (.string ((ofUnits? units []).map String.ofList), rest)

/-! ## Lexemes -/

/-- The word `w` at the front of a text, as `l`. -/
def word? (w : String) (l : Lexeme) (cs : List Char) : Option (Lexeme × List Char) :=
  if w.toList.isPrefixOf cs then some (l, cs.drop w.length) else none

/-- The lexeme that a text starts with, and the rest. -/
def lexeme? : List Char → Option (Lexeme × List Char)
  | [] => none
  | '\x7b' :: rest => some (.objectOpen, rest)
  | '\x7d' :: rest => some (.objectClose, rest)
  | '[' :: rest => some (.arrayOpen, rest)
  | ']' :: rest => some (.arrayClose, rest)
  | ':' :: rest => some (.colon, rest)
  | ',' :: rest => some (.comma, rest)
  | '"' :: rest => string? rest
  | 't' :: rest => word? "rue" (.bool true) rest
  | 'f' :: rest => word? "alse" (.bool false) rest
  | 'n' :: rest => word? "ull" .null rest
  | cs => (Numeral.read? cs).map fun (n, rest) => (.numeral n, rest)

theorem stringUnits?_length_le {cs : List Char} {units : List Nat} {r : List Nat × List Char}
    (h : stringUnits? cs units = some r) : r.2.length ≤ cs.length := by
  fun_induction stringUnits? cs units with
  | case1 rest units => cases h; simp
  | case2 a b c d rest units u hu ih => have := ih h; simp only [List.length_cons]; omega
  | case3 => simp at h
  | case4 e rest units _ c hc ih => have := ih h; simp only [List.length_cons]; omega
  | case5 => simp at h
  | case6 => simp at h
  | case7 c rest units _ _ _ _ ih => have := ih h; simp only [List.length_cons]; omega
  | case8 => simp at h

theorem word?_length_le {w : String} {l : Lexeme} {cs : List Char} {r : Lexeme × List Char}
    (h : word? w l cs = some r) : r.2.length ≤ cs.length := by
  unfold word? at h
  split at h
  · cases h; simp
  · simp at h

theorem string?_length_le {cs : List Char} {r : Lexeme × List Char} (h : string? cs = some r) :
    r.2.length ≤ cs.length := by
  simp only [string?, Option.map_eq_some_iff] at h
  obtain ⟨⟨units, rest⟩, hu, rfl⟩ := h
  exact stringUnits?_length_le hu

theorem lexeme?_length_lt {cs : List Char} {r : Lexeme × List Char} (h : lexeme? cs = some r) :
    r.2.length < cs.length := by
  unfold lexeme? at h
  split at h
  case h_12 =>
    simp only [Option.map_eq_some_iff] at h
    obtain ⟨⟨n, rest⟩, hn, rfl⟩ := h
    exact Numeral.read?_length_lt hn
  case h_1 => cases h
  case h_8 => exact Nat.lt_succ_of_le (string?_length_le h)
  case h_9 | h_10 | h_11 => exact Nat.lt_succ_of_le (word?_length_le h)
  all_goals cases h; simp

/-- Read lexemes onto `acc`, to the end of the text or to the first place where none stands; say
whether the end was reached. -/
def lexemesOnto (cs : List Char) (acc : Array Lexeme) : Array Lexeme × Bool :=
  match _hd : cs.dropWhile isBlank with
  | [] => (acc, true)
  | c :: rest =>
    match _h : lexeme? (c :: rest) with
    | some (l, rest) => lexemesOnto rest (acc.push l)
    | none => (acc, false)
termination_by cs.length
decreasing_by
  have h₁ := lexeme?_length_lt ‹_›
  have h₂ : (cs.dropWhile isBlank).length ≤ cs.length := (List.dropWhile_sublist _).length_le
  rw [‹cs.dropWhile isBlank = _›] at h₂
  exact Nat.lt_of_lt_of_le h₁ h₂

/-- The lexemes of a text, and whether there is nothing else in it. -/
def lexemes (text : String) : List Lexeme × Bool :=
  let (ls, complete) := lexemesOnto text.toList #[]
  (ls.toList, complete)

end Json

end Guardedness
