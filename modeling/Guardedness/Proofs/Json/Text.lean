import Guardedness.Proofs.Json.Value
import Mathlib.Data.List.Chain

/-!
# The texts of a JSON value

A value can be written in many ways: with blanks between its lexemes, and with escapes in its
strings. All of its texts have the lexemes of the value (`lexemes_of_written`).

**Strings** (`Quoted`). Each character of a string is written as itself, by an escape, by its
number, or as the two halves of a surrogate pair. A half that stands alone writes no character.

**Numerals** (`Numeral.Spelled`). A numeral ends where no digit, point or exponent follows. Only
another numeral could follow and go on with it, and in a value no two numerals stand side by side
(`Value.apart_lexemes`).
-/

namespace Guardedness

namespace Json

variable {a b c d e : Char} {cs w gap rest : List Char} {u : Nat} {l : Lexeme}
  {ls : List Lexeme} {v : Value} {text : String}

/-! ## Strings -/

/-- The characters `cs`, as they can be written between quotes. -/
inductive Quoted : (cs w : List Char) → Prop
  | nil : Quoted [] []
  | plain {c : Char} {cs w : List Char} (hquote : c ≠ '"') (hescape : c ≠ '\\')
    (hcontrol : ¬ c < ' ') (h : Quoted cs w) : Quoted (c :: cs) (c :: w)
  | escape {c e : Char} {cs w : List Char} (hc : escape? e = some c) (h : Quoted cs w) :
    Quoted (c :: cs) ('\\' :: e :: w)
  | number {a b c d : Char} {u : Nat} {cs w : List Char} (hu : hex? a b c d = some u)
    (hhigh : isHighHalf u = false) (hlow : isLowHalf u = false) (h : Quoted cs w) :
    Quoted (Char.ofNat u :: cs) ('\\' :: 'u' :: a :: b :: c :: d :: w)
  | pair {a b c d a' b' c' d' : Char} {u lo : Nat} {cs w : List Char}
    (hu : hex? a b c d = some u) (hlo : hex? a' b' c' d' = some lo)
    (hhigh : isHighHalf u = true) (hlow : isLowHalf lo = true) (h : Quoted cs w) :
    Quoted (Char.ofNat ((u - 0xd800) * 0x400 + (lo - 0xdc00) + 0x10000) :: cs)
      ('\\' :: 'u' :: a :: b :: c :: d :: '\\' :: 'u' :: a' :: b' :: c' :: d' :: w)

/-- All but a few characters can be written as themselves. -/
theorem Quoted.of_plain (h : ∀ c ∈ cs, c ≠ '"' ∧ c ≠ '\\' ∧ ¬ c < ' ') : Quoted cs cs := by
  induction cs with
  | nil => exact .nil
  | cons c cs ih =>
    obtain ⟨hquote, hescape, hcontrol⟩ := h c List.mem_cons_self
    exact .plain hquote hescape hcontrol (ih fun c hc => h c (List.mem_cons_of_mem _ hc))

theorem not_half (c : Char) : isHighHalf c.toNat = false ∧ isLowHalf c.toNat = false := by
  have valid : c.toNat < 0xd800 ∨ 0xdfff < c.toNat ∧ c.toNat < 0x110000 := c.valid
  simp only [isHighHalf, isLowHalf, Bool.and_eq_false_iff, decide_eq_false_iff_not]
  omega

theorem ofUnits?_char (c : Char) (us : List Nat) (chars : List Char) :
    ofUnits? (c.toNat :: us) chars = ofUnits? us (c :: chars) := by
  obtain ⟨hhigh, hlow⟩ := not_half c
  rw [ofUnits?.eq_def]
  simp [hhigh, hlow, Char.ofNat_toNat]

theorem stringUnits?_plain (hquote : c ≠ '"') (hescape : c ≠ '\\') (hcontrol : ¬ c < ' ')
    (cs : List Char) (units : List Nat) :
    stringUnits? (c :: cs) units = stringUnits? cs (c.toNat :: units) := by
  rw [stringUnits?.eq_def]
  split <;> simp_all

theorem stringUnits?_escape (hc : escape? e = some c) (cs : List Char) (units : List Nat) :
    stringUnits? ('\\' :: e :: cs) units = stringUnits? cs (c.toNat :: units) := by
  unfold escape? at hc
  split at hc <;> cases hc <;> rfl

theorem stringUnits?_number (hu : hex? a b c d = some u) (cs : List Char) (units : List Nat) :
    stringUnits? ('\\' :: 'u' :: a :: b :: c :: d :: cs) units = stringUnits? cs (u :: units) := by
  rw [stringUnits?, hu]

/-- What stands between quotes is read into units that stand for its characters. -/
theorem Quoted.exists_units (h : Quoted cs w) : ∃ us,
    (∀ units rest, stringUnits? (w ++ '"' :: rest) units = some (units.reverse ++ us, rest)) ∧
      ∀ chars, ofUnits? us chars = some (chars.reverse ++ cs) := by
  induction h with
  | nil =>
    refine ⟨[], fun units rest => ?_, fun chars => ?_⟩
    · rw [List.nil_append, stringUnits?, List.append_nil]
    · rw [ofUnits?, List.append_nil]
  | @plain c _ _ hquote hescape hcontrol _ ih =>
    obtain ⟨us, units_eq, chars_eq⟩ := ih
    refine ⟨c.toNat :: us, fun units rest => ?_, fun chars => ?_⟩
    · rw [List.cons_append, stringUnits?_plain hquote hescape hcontrol, units_eq]
      simp
    · rw [ofUnits?_char, chars_eq]
      simp
  | @escape c _ _ _ hc _ ih =>
    obtain ⟨us, units_eq, chars_eq⟩ := ih
    refine ⟨c.toNat :: us, fun units rest => ?_, fun chars => ?_⟩
    · rw [List.cons_append, List.cons_append, stringUnits?_escape hc, units_eq]
      simp
    · rw [ofUnits?_char, chars_eq]
      simp
  | @number _ _ _ _ u _ _ hu hhigh hlow _ ih =>
    obtain ⟨us, units_eq, chars_eq⟩ := ih
    refine ⟨u :: us, fun units rest => ?_, fun chars => ?_⟩
    · simp only [List.cons_append, stringUnits?_number hu, units_eq, List.reverse_cons,
        List.append_assoc, List.nil_append]
    · rw [ofUnits?.eq_def]
      simp [hhigh, hlow, chars_eq]
  | @pair _ _ _ _ _ _ _ _ u lo _ _ hu hlo hhigh hlow _ ih =>
    -- Two units, for one character.
    obtain ⟨us, units_eq, chars_eq⟩ := ih
    refine ⟨u :: lo :: us, fun units rest => ?_, fun chars => ?_⟩
    · simp only [List.cons_append, stringUnits?_number hu, stringUnits?_number hlo, units_eq,
        List.reverse_cons, List.append_assoc, List.nil_append]
    · rw [ofUnits?.eq_def]
      simp [hhigh, hlow, chars_eq]

theorem string?_quoted (h : Quoted cs w) (rest : List Char) :
    string? (w ++ '"' :: rest) = some (.string (some (String.ofList cs)), rest) := by
  obtain ⟨us, units_eq, chars_eq⟩ := h.exists_units
  rw [string?, units_eq, List.reverse_nil, List.nil_append]
  show some (Lexeme.string ((ofUnits? us []).map String.ofList), rest) = _
  rw [chars_eq]
  rfl

/-! ## Numerals -/

namespace Numeral

variable {ds : List Nat} {negative : Bool} {n : Numeral}

/-- At least one digit. -/
structure Digits (ds : List Nat) (w : List Char) : Prop where
  digits : ∀ c ∈ w, c.isDigit = true
  ne_nil : w ≠ []
  values : w.map digit = ds

/-- The digits of a fraction behind a point, or nothing. -/
inductive Fraction : List Nat → List Char → Prop
  | absent : Fraction [] []
  | given {ds : List Nat} {w : List Char} (h : Digits ds w) : Fraction ds ('.' :: w)

inductive Sign : (negative : Bool) → List Char → Prop
  | absent : Sign false []
  | plus : Sign false ['+']
  | minus : Sign true ['-']

inductive Exponent : Option (Bool × List Nat) → List Char → Prop
  | absent : Exponent none []
  | given {c : Char} {negative : Bool} {ds : List Nat} {sign w : List Char}
    (hmark : c = 'e' ∨ c = 'E') (hsign : Sign negative sign) (h : Digits ds w) :
    Exponent (some (negative, ds)) (c :: (sign ++ w))

/-- A numeral as it can be written: no further digit stands behind a zero in front. -/
inductive Spelled : Numeral → List Char → Prop
  | mk {n : Numeral} {sign whole fraction exponent : List Char}
    (hsign : sign = if n.negative then ['-'] else [])
    (hwhole : Digits n.whole whole) (hzero : ∀ ds, n.whole = 0 :: ds → ds = [])
    (hfraction : Fraction n.fraction fraction) (hexponent : Exponent n.exponent exponent) :
    Spelled n (sign ++ (whole ++ (fraction ++ exponent)))

/-- The characters that a numeral can go on with. -/
def goesOn (c : Char) : Bool := c.isDigit || c == '.' || c == 'e' || c == 'E'

/-- A numeral ends in front of `rest`. -/
def EndsBefore (rest : List Char) : Prop := ∀ c ∈ rest.head?, goesOn c = false

theorem digits_append (h : Digits ds w) (hrest : ∀ c ∈ rest.head?, c.isDigit = false) :
    digits (w ++ rest) = (ds, rest) := by
  have none : rest.takeWhile Char.isDigit = [] ∧ rest.dropWhile Char.isDigit = rest := by
    cases rest with
    | nil => exact ⟨rfl, rfl⟩
    | cons c rest => simp [hrest c rfl]
  rw [digits, List.takeWhile_append_of_pos h.digits, List.dropWhile_append_of_pos h.digits,
    none.1, none.2, List.append_nil, h.values]

theorem someDigits?_append (h : Digits ds w) (hrest : ∀ c ∈ rest.head?, c.isDigit = false) :
    someDigits? (w ++ rest) = some (ds, rest) := by
  have : ds.isEmpty = false := by
    rw [List.isEmpty_eq_false_iff, ← h.values]
    exact mt List.map_eq_nil_iff.mp h.ne_nil
  rw [someDigits?, digits_append h hrest, if_neg (by simp [this])]

theorem EndsBefore.digit (h : EndsBefore rest) : ∀ c ∈ rest.head?, c.isDigit = false := by
  intro c hc
  have := h c hc
  simp only [goesOn, Bool.or_eq_false_iff] at this
  exact this.1.1.1

theorem head_digits (h : Digits ds w) (rest : List Char) :
    ∃ c cs, w ++ rest = c :: cs ∧ c.isDigit = true := by
  obtain ⟨c, w, rfl⟩ := List.exists_cons_of_ne_nil h.ne_nil
  exact ⟨c, w ++ rest, rfl, h.digits c List.mem_cons_self⟩

theorem append_ne_cons (h : Digits ds w) (hc : c.isDigit = false) (cs : List Char) :
    w ++ rest ≠ c :: cs := by
  obtain ⟨c', cs', hcs, hc'⟩ := head_digits h rest
  rw [hcs]
  rintro ⟨⟩
  rw [hc] at hc'
  cases hc'

theorem signedDigits?_append {sign : List Char} (hsign : Sign negative sign) (h : Digits ds w)
    (hrest : EndsBefore rest) :
    signedDigits? (sign ++ (w ++ rest)) = some ((negative, ds), rest) := by
  have hdigits := someDigits?_append h hrest.digit
  cases hsign with
  | plus | minus => simp [signedDigits?, hdigits]
  | absent =>
    rw [List.nil_append, signedDigits?.eq_def]
    split
    · next heq => exact absurd heq (append_ne_cons h rfl _)
    · next heq => exact absurd heq (append_ne_cons h rfl _)
    · rw [hdigits]
      rfl

theorem exponent?_append {e : Option (Bool × List Nat)} (h : Exponent e w)
    (hrest : EndsBefore rest) : exponent? (w ++ rest) = some (e, rest) := by
  cases h with
  | absent =>
    rw [List.nil_append, exponent?.eq_def]
    split
    · cases hrest _ rfl
    · cases hrest _ rfl
    · rfl
  | given hmark hsign hdigits =>
    have := signedDigits?_append hsign hdigits hrest
    rcases hmark with rfl | rfl <;>
      simp [exponent?, this]

theorem fraction?_append (h : Fraction ds w) (hdigit : ∀ c ∈ rest.head?, c.isDigit = false)
    (hpoint : rest.head? ≠ some '.') : fraction? (w ++ rest) = some (ds, rest) := by
  cases h with
  | absent =>
    rw [List.nil_append, fraction?.eq_def]
    split
    · exact absurd rfl hpoint
    · rfl
  | given hdigits => exact someDigits?_append hdigits hdigit

theorem whole?_append (h : Digits ds w) (hzero : ∀ ds', ds = 0 :: ds' → ds' = [])
    (hrest : ∀ c ∈ rest.head?, c.isDigit = false) : whole? (w ++ rest) = some (ds, rest) := by
  rw [whole?.eq_def, someDigits?_append h hrest]
  split
  · next heq =>
    obtain ⟨rfl, -⟩ := Prod.mk.inj (Option.some.inj heq)
    cases hzero _ rfl
  · rfl

/-- The whole digits end in front of a fraction or an exponent, and so does a fraction. -/
theorem head_exponent {e : Option (Bool × List Nat)} (h : Exponent e w) (hrest : EndsBefore rest) :
    (∀ c ∈ (w ++ rest).head?, c.isDigit = false) ∧ (w ++ rest).head? ≠ some '.' := by
  cases h with
  | absent =>
    refine ⟨hrest.digit, fun hpoint => ?_⟩
    cases hrest _ hpoint
  | given hmark => rcases hmark with rfl | rfl <;> simp

theorem head_fraction (h : Fraction ds w) (hdigit : ∀ c ∈ rest.head?, c.isDigit = false) :
    ∀ c ∈ (w ++ rest).head?, c.isDigit = false := by
  cases h with
  | absent => exact hdigit
  | given => simp

theorem read?_append (h : n.Spelled w) (hrest : EndsBefore rest) :
    read? (w ++ rest) = some (n, rest) := by
  obtain ⟨hsign, hwhole, hzero, hfraction, hexponent⟩ := h
  next sign whole fraction exponent =>
  obtain ⟨hdigit, hpoint⟩ := head_exponent hexponent hrest
  have unsigned (negative : Bool) : unsigned? negative (whole ++ (fraction ++ (exponent ++ rest))) =
      some (⟨negative, n.whole, n.fraction, n.exponent⟩, rest) := by
    rw [unsigned?, whole?_append hwhole hzero (head_fraction hfraction hdigit)]
    show (fraction? _ >>= _) = _
    rw [fraction?_append hfraction hdigit hpoint]
    show (exponent? _ >>= _) = _
    rw [exponent?_append hexponent hrest]
    rfl
  subst hsign
  simp only [List.append_assoc]
  cases hn : n.negative with
  | true =>
    show unsigned? true (whole ++ _) = _
    rw [unsigned, ← hn]
  | false =>
    show read? (whole ++ _) = _
    rw [read?.eq_def]
    split
    · next heq => exact absurd heq (append_ne_cons hwhole rfl _)
    · rw [unsigned, ← hn]

theorem Spelled.exists_cons (h : n.Spelled w) :
    ∃ c cs, w = c :: cs ∧ (c = '-' ∨ c.isDigit = true) := by
  obtain ⟨rfl, hwhole, -, -, -⟩ := h
  next whole fraction exponent =>
  obtain ⟨c, cs, hcs, hc⟩ := head_digits hwhole (fraction ++ exponent)
  cases n.negative with
  | true => exact ⟨'-', _, rfl, .inl rfl⟩
  | false => exact ⟨c, cs, hcs, .inr hc⟩

end Numeral

/-! ## Lexemes -/

inductive Lexeme.Spelled : Lexeme → List Char → Prop
  | objectOpen : Spelled .objectOpen ['\x7b']
  | objectClose : Spelled .objectClose ['\x7d']
  | arrayOpen : Spelled .arrayOpen ['[']
  | arrayClose : Spelled .arrayClose [']']
  | colon : Spelled .colon [':']
  | comma : Spelled .comma [',']
  | string {text : String} {w : List Char} (h : Quoted text.toList w) :
    Spelled (.string text) ('"' :: (w ++ ['"']))
  | numeral {n : Numeral} {w : List Char} (h : n.Spelled w) : Spelled (.numeral n) w
  | yes : Spelled (.bool true) ['t', 'r', 'u', 'e']
  | no : Spelled (.bool false) ['f', 'a', 'l', 's', 'e']
  | null : Spelled .null ['n', 'u', 'l', 'l']

def Lexeme.isNumeral : Lexeme → Bool
  | .numeral _ => true
  | _ => false

theorem lexeme?_of_numeral (h : c = '-' ∨ c.isDigit = true) (cs : List Char) :
    lexeme? (c :: cs) = (Numeral.read? (c :: cs)).map fun (n, rest) => (.numeral n, rest) := by
  rw [lexeme?.eq_def]
  split <;> simp_all

theorem lexeme?_append (h : l.Spelled w) (hrest : l.isNumeral = true → Numeral.EndsBefore rest) :
    lexeme? (w ++ rest) = some (l, rest) := by
  cases h with
  | string h =>
    rw [List.cons_append, List.append_assoc]
    show string? (_ ++ '"' :: rest) = _
    rw [string?_quoted h, String.ofList_toList]
  | numeral h =>
    obtain ⟨c, cs, rfl, hc⟩ := h.exists_cons
    rw [List.cons_append, lexeme?_of_numeral hc, ← List.cons_append,
      Numeral.read?_append h (hrest rfl)]
    rfl
  | yes | no | null =>
    simp [lexeme?, word?]
    rfl
  | _ => rfl

theorem Lexeme.Spelled.exists_cons (h : l.Spelled w) : ∃ c cs, w = c :: cs ∧ isBlank c = false ∧
    (l.isNumeral = false → Numeral.goesOn c = false) := by
  cases h with
  | numeral h =>
    obtain ⟨c, cs, rfl, hc⟩ := h.exists_cons
    refine ⟨c, cs, rfl, ?_, nofun⟩
    rcases hc with rfl | hc
    · rfl
    · simp only [isBlank, Bool.or_eq_false_iff, beq_eq_false_iff_ne]
      refine ⟨⟨⟨?_, ?_⟩, ?_⟩, ?_⟩ <;> rintro rfl <;> cases hc
  | _ => exact ⟨_, _, rfl, by decide, fun _ => by decide⟩

/-! ## Texts -/

/-- The text `cs` holds the lexemes `ls`, with blanks before, between and behind them. -/
inductive Lays : List Lexeme → List Char → Prop
  | nil {gap : List Char} (hgap : ∀ c ∈ gap, isBlank c = true) : Lays [] gap
  | cons {gap w rest : List Char} {l : Lexeme} {ls : List Lexeme}
    (hgap : ∀ c ∈ gap, isBlank c = true) (hl : l.Spelled w) (h : Lays ls rest) :
    Lays (l :: ls) (gap ++ (w ++ rest))

/-- The text is one of the value. -/
def Value.Written (v : Value) (text : String) : Prop := Lays v.lexemes text.toList

/-- No two numerals stand side by side. -/
def Apart (ls : List Lexeme) : Prop := ls.IsChain fun l l' => ¬ (l.isNumeral ∧ l'.isNumeral)

theorem Apart.cons (h : Apart ls) (hl : l.isNumeral = false) : Apart (l :: ls) := by
  refine List.isChain_cons.mpr ⟨fun l' _ => ?_, h⟩
  simp [hl]

namespace Value

theorem head_moreItems (vs : List Value) (after : List Lexeme) :
    ∀ l ∈ (moreItems vs ++ after).head?, l.isNumeral = false := by
  cases vs <;> (rintro l ⟨⟩; rfl)

theorem head_moreMembers (ms : List (String × Value)) (after : List Lexeme) :
    ∀ l ∈ (moreMembers ms ++ after).head?, l.isNumeral = false := by
  rcases ms with - | ⟨⟨key, v⟩, ms⟩ <;> (rintro l ⟨⟩; rfl)

mutual

/-- No two numerals stand side by side in a value. -/
theorem apart_append : ∀ (v : Value) {after : List Lexeme},
    (∀ l ∈ after.head?, l.isNumeral = false) → Apart after → Apart (v.lexemes ++ after)
  | .null, _, _, h => by rw [lexemes]; exact h.cons rfl
  | .bool _, _, _, h => by rw [lexemes]; exact h.cons rfl
  | .string _, _, _, h => by rw [lexemes]; exact h.cons rfl
  | .numeral _, _, hafter, h => by
    rw [lexemes]
    refine List.isChain_cons.mpr ⟨fun l hl => ?_, h⟩
    simp [hafter l hl]
  | .array [], _, _, h => by rw [lexemes]; exact (h.cons rfl).cons rfl
  | .array (v :: vs), _, _, h => by
    rw [lexemes, List.cons_append, List.append_assoc]
    exact (apart_append v (head_moreItems vs _) (apart_moreItems vs h)).cons rfl
  | .object [], _, _, h => by rw [lexemes]; exact (h.cons rfl).cons rfl
  | .object ((key, v) :: ms), _, _, h => by
    rw [lexemes, List.cons_append, List.cons_append, List.cons_append, List.append_assoc]
    have hv := apart_append v (head_moreMembers ms _) (apart_moreMembers ms h)
    exact ((hv.cons rfl).cons rfl).cons rfl

theorem apart_moreItems : ∀ (vs : List Value) {after : List Lexeme}, Apart after →
    Apart (moreItems vs ++ after)
  | [], _, h => by rw [moreItems]; exact h.cons rfl
  | v :: vs, _, h => by
    rw [moreItems, List.cons_append, List.append_assoc]
    exact (apart_append v (head_moreItems vs _) (apart_moreItems vs h)).cons rfl

theorem apart_moreMembers : ∀ (ms : List (String × Value)) {after : List Lexeme}, Apart after →
    Apart (moreMembers ms ++ after)
  | [], _, h => by rw [moreMembers]; exact h.cons rfl
  | (key, v) :: ms, _, h => by
    rw [moreMembers, List.cons_append, List.cons_append, List.cons_append, List.append_assoc]
    have hv := apart_append v (head_moreMembers ms _) (apart_moreMembers ms h)
    exact ((hv.cons rfl).cons rfl).cons rfl

end

theorem apart_lexemes (v : Value) : Apart v.lexemes := by
  have := apart_append v (by simp) List.isChain_nil
  rwa [List.append_nil] at this

end Value

theorem dropWhile_gap (hgap : ∀ c ∈ gap, isBlank c = true) (cs : List Char) :
    (gap ++ cs).dropWhile isBlank = cs.dropWhile isBlank :=
  List.dropWhile_append_of_pos hgap

theorem lexemesOnto_blanks (hgap : ∀ c ∈ gap, isBlank c = true) (acc : Array Lexeme) :
    lexemesOnto gap acc = (acc, true) := by
  have hdrop : gap.dropWhile isBlank = [] := by
    simpa using dropWhile_gap hgap []
  rw [lexemesOnto]
  split
  · rfl
  · simp_all

theorem lexemesOnto_lexeme (hgap : ∀ c ∈ gap, isBlank c = true) (hc : isBlank c = false)
    (h : lexeme? (c :: cs) = some (l, rest)) (acc : Array Lexeme) :
    lexemesOnto (gap ++ c :: cs) acc = lexemesOnto rest (acc.push l) := by
  have hdrop : (gap ++ c :: cs).dropWhile isBlank = c :: cs := by
    rw [dropWhile_gap hgap, List.dropWhile_cons_of_neg (by simp [hc])]
  rw [lexemesOnto]
  split
  · simp_all
  · next heq =>
    obtain ⟨rfl, rfl⟩ := List.cons.inj (hdrop.symm.trans heq)
    split <;> simp_all

theorem Lays.endsBefore (h : Lays ls cs) (hls : ∀ l ∈ ls.head?, l.isNumeral = false) :
    Numeral.EndsBefore cs := by
  have blank {gap : List Char} (hgap : ∀ c ∈ gap, isBlank c = true) (rest : List Char)
      (hrest : Numeral.EndsBefore rest) : Numeral.EndsBefore (gap ++ rest) := by
    cases gap with
    | nil => exact hrest
    | cons c gap =>
      rintro c' ⟨⟩
      have := hgap c List.mem_cons_self
      simp only [isBlank, Bool.or_eq_true, beq_iff_eq] at this
      rcases this with ((rfl | rfl) | rfl) | rfl <;> rfl
  cases h with
  | nil hgap => simpa using blank hgap [] nofun
  | cons hgap hl =>
    refine blank hgap _ ?_
    obtain ⟨c, cs, rfl, -, hc⟩ := hl.exists_cons
    rintro c' ⟨⟩
    exact hc (hls _ rfl)

/-- The lexemes that a text holds are read, up to its end. -/
theorem lexemesOnto_of_lays (h : Lays ls cs) (apart : Apart ls) (acc : Array Lexeme) :
    lexemesOnto cs acc = (acc ++ ls.toArray, true) := by
  induction h generalizing acc with
  | nil hgap => simpa using lexemesOnto_blanks hgap acc
  | @cons gap w rest l ls hgap hl h ih =>
    obtain ⟨hnext, apart⟩ := List.isChain_cons.mp apart
    have ends (hnumeral : l.isNumeral = true) : Numeral.EndsBefore rest := by
      refine h.endsBefore fun l' hl' => ?_
      simpa [hnumeral] using hnext l' hl'
    have read := lexeme?_append hl ends
    obtain ⟨c, w, rfl, hc, -⟩ := hl.exists_cons
    rw [List.cons_append] at read ⊢
    rw [lexemesOnto_lexeme hgap hc read, ih apart]
    simp

/-- A text of a value has the lexemes of the value. -/
theorem lexemes_of_written (h : v.Written text) : lexemes text = (v.lexemes, true) := by
  rw [lexemes, lexemesOnto_of_lays h v.apart_lexemes]
  simp

end Json

end Guardedness
