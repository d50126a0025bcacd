import Guardedness.Lexer

/-!
# The front of a text

What a lexer reads next is settled by the front of the text that is left: blanks are skipped, and
then a token begins.

**Spellings** (`Spelled`). A token that is not the end token is spelled in one of three ways: as a
run of letters, as one punctuation character, or as one character that is neither of these and no
blank. The first character settles which one it is.

**The next token.** A text is blanks only, or it has a spelling after its blanks that no letter goes
on where it is a word (`begins`). In the first case the end token is read (`Lexer.next_of_blanks`),
in the second the token with this spelling (`Lexer.next_of_spelled`). All that a lexer does follows
from these two.
-/

namespace Guardedness

/-- A name that reads as an identifier: it has letters only, at least one, and is not reserved. -/
structure IsWord (w : String) : Prop where
  ne_empty : w ≠ ""
  letters : ∀ c ∈ w.toList, c.isAlpha = true
  ne_nil : w ≠ "nil"
  ne_rec : w ≠ "rec"

instance (w : String) : Decidable (IsWord w) :=
  decidable_of_iff (w ≠ "" ∧ w.toList.all Char.isAlpha = true ∧ w ≠ "nil" ∧ w ≠ "rec")
    ⟨fun ⟨hempty, hletters, hnil, hrec⟩ => ⟨hempty, List.all_eq_true.mp hletters, hnil, hrec⟩,
      fun h => ⟨h.ne_empty, List.all_eq_true.mpr h.letters, h.ne_nil, h.ne_rec⟩⟩

/-- No letter stands at the front of a text. -/
def NoLetter (cs : List Char) : Prop := ∀ c ∈ cs.head?, c.isAlpha = false

theorem Keyword.ofText?_eq_some {w : String} {k : Keyword} : ofText? w = some k ↔ w = k.text := by
  constructor
  · intro h
    rw [ofText?] at h
    have hk := List.find?_some h
    exact (eq_of_beq hk).symm
  · rintro rfl
    cases k <;> rfl

namespace Token.Kind

/-- The kinds that words have. -/
def isWord : Token.Kind → Bool
  | identifier | keyword _ => true
  | _ => false

theorem isWord_ofWord (w : String) : (ofWord w).isWord = true := by
  unfold ofWord
  split <;> rfl

theorem ofWord_eq_keyword {w : String} {k : Keyword} : ofWord w = keyword k ↔ w = k.text := by
  rw [← Keyword.ofText?_eq_some, ofWord]
  cases Keyword.ofText? w <;> simp

theorem ofWord_eq_identifier {w : String} :
    ofWord w = identifier ↔ w ≠ "nil" ∧ w ≠ "rec" := by
  by_cases hn : w = "nil"
  · subst hn
    exact iff_of_false (by decide) (by simp)
  · by_cases hr : w = "rec"
    · subst hr
      exact iff_of_false (by decide) (by simp)
    · refine iff_of_true ?_ ⟨hn, hr⟩
      have hnone : Keyword.ofText? w = none := by
        simp [Keyword.ofText?, Keyword.all, Keyword.text, Ne.symm hn, Ne.symm hr]
      rw [ofWord, hnone]

end Token.Kind

variable {c : Char} {cs w : List Char} {k : Token.Kind}

theorem of_symbol (h : Token.Kind.ofSymbol? c = some k) :
    isBlank c = false ∧ c.isAlpha = false := by
  unfold Token.Kind.ofSymbol? at h
  split at h <;> first | decide | cases h

theorem kind_of_symbol (h : Token.Kind.ofSymbol? c = some k) :
    k.isWord = false ∧ k ≠ .illegal ∧ k ≠ .endOfInput := by
  unfold Token.Kind.ofSymbol? at h
  split at h <;> first | (cases h; decide) | cases h

theorem isBlank_of_isAlpha (h : c.isAlpha = true) : isBlank c = false := by
  apply Bool.eq_false_iff.mpr
  intro hb
  simp only [isBlank, Bool.or_eq_true, beq_iff_eq] at hb
  rcases hb with ((rfl | rfl) | rfl) | rfl <;> cases h

theorem ofSymbol?_of_isAlpha (h : c.isAlpha = true) : Token.Kind.ofSymbol? c = none := by
  cases hk : Token.Kind.ofSymbol? c with
  | none => rfl
  | some k => rw [(of_symbol hk).2] at h; cases h

theorem noLetter_nil : NoLetter [] := by
  intro c hc
  cases hc

theorem noLetter_cons (h : c.isAlpha = false) : NoLetter (c :: cs) := by
  intro d hd
  cases hd
  exact h

theorem noLetter_of_append (h : NoLetter (cs ++ w)) : NoLetter cs := by
  intro c hc
  exact h c (by rw [List.head?_append, Option.mem_def.mp hc]; rfl)

theorem noLetter_append (hcs : NoLetter cs) (hw : NoLetter w) : NoLetter (cs ++ w) := by
  cases cs with
  | nil => exact hw
  | cons c cs => exact noLetter_cons (hcs c rfl)

theorem not_noLetter (hne : w ≠ []) (hw : ∀ c ∈ w, c.isAlpha = true) : ¬NoLetter (w ++ cs) := by
  obtain ⟨c, w, rfl⟩ := List.exists_cons_of_ne_nil hne
  intro hno
  have hc := hw c List.mem_cons_self
  rw [hno c rfl] at hc
  cases hc

theorem noLetter_dropWhile (cs : List Char) : NoLetter (cs.dropWhile Char.isAlpha) := by
  intro c hc
  have h := List.head?_dropWhile_not Char.isAlpha cs
  rwa [Option.mem_def.mp hc] at h

theorem takeWhile_word (hw : ∀ c ∈ w, c.isAlpha = true) (hcs : NoLetter cs) :
    (w ++ cs).takeWhile Char.isAlpha = w := by
  rw [List.takeWhile_append_of_pos hw]
  cases cs with
  | nil => simp
  | cons c cs => simp [hcs c rfl]

/-! ## Spellings -/

/-- A token of kind `k`, not the end token, can be spelled `w`. -/
inductive Spelled : Token.Kind → List Char → Prop
  | word {w : List Char} : w ≠ [] → (∀ c ∈ w, c.isAlpha = true) →
    Spelled (.ofWord (String.ofList w)) w
  | symbol {c : Char} {k : Token.Kind} : Token.Kind.ofSymbol? c = some k → Spelled k [c]
  | illegal {c : Char} : isBlank c = false → c.isAlpha = false →
    Token.Kind.ofSymbol? c = none → Spelled .illegal [c]

theorem Spelled.ne_nil (h : Spelled k w) : w ≠ [] := by
  cases h with
  | word hne => exact hne
  | symbol | illegal => exact List.cons_ne_nil _ _

theorem Spelled.ne_endOfInput (h : Spelled k w) : k ≠ .endOfInput := by
  cases h with
  | word =>
    intro hk
    have := Token.Kind.isWord_ofWord (String.ofList w)
    simp [hk, Token.Kind.isWord] at this
  | symbol hc => exact (kind_of_symbol hc).2.2
  | illegal => simp

theorem Spelled.not_blank (h : Spelled k (c :: w)) : isBlank c = false := by
  cases h with
  | word _ hw => exact isBlank_of_isAlpha (hw c List.mem_cons_self)
  | symbol hc => exact (of_symbol hc).1
  | illegal hblank => exact hblank

theorem Spelled.isWord (h : Spelled .identifier w) : IsWord (String.ofList w) := by
  generalize hk : Token.Kind.identifier = k at h
  cases h with
  | word hne hw =>
    obtain ⟨hnil, hrec⟩ := Token.Kind.ofWord_eq_identifier.mp hk.symm
    exact ⟨by simpa using hne, by rwa [String.toList_ofList], hnil, hrec⟩
  | symbol hc =>
    have := (kind_of_symbol hc).1
    simp [← hk, Token.Kind.isWord] at this
  | illegal => cases hk

namespace Lexer

variable {pos : Position}

theorem front_symbol (h : Token.Kind.ofSymbol? c = some k) : front c cs = (k, [c]) := by
  simp [front, Scan.symbol?, h]

theorem front_word (hw : ∀ d ∈ c :: w, d.isAlpha = true) (hcs : NoLetter cs) :
    front c (w ++ cs) = (.ofWord (String.ofList (c :: w)), c :: w) := by
  have hsymbol := ofSymbol?_of_isAlpha (hw c List.mem_cons_self)
  have hword := takeWhile_word hw hcs
  rw [List.cons_append] at hword
  simp [front, Scan.symbol?, hsymbol, Scan.word?, hword]

theorem front_illegal (hletter : c.isAlpha = false) (hsymbol : Token.Kind.ofSymbol? c = none) :
    front c cs = (.illegal, [c]) := by
  simp [front, Scan.symbol?, hsymbol, Scan.word?, hletter]

/-- A spelling at the front of a text is what is read there. -/
theorem front_of_spelled (h : Spelled k (c :: w)) (hcs : k.isWord = true → NoLetter cs) :
    front c (w ++ cs) = (k, c :: w) := by
  cases h with
  | word _ hw => exact front_word hw (hcs (Token.Kind.isWord_ofWord _))
  | symbol hc => exact front_symbol hc
  | illegal _ hletter hsymbol => exact front_illegal hletter hsymbol

theorem next_blank (hc : isBlank c = true) : next ⟨c :: cs, pos⟩ = next ⟨cs, pos.next c⟩ := by
  simp [next, skipBlanks, Scan.blanks, hc]

/-- After blanks the end token is read at the end. -/
theorem next_of_blanks {gap : List Char} (pos : Position)
    (hgap : ∀ c ∈ gap, isBlank c = true) :
    next ⟨gap, pos⟩ =
      (⟨.endOfInput, "", (pos.after gap).spanTo (pos.after gap)⟩, ⟨[], pos.after gap⟩) := by
  induction gap generalizing pos with
  | nil => rfl
  | cons c gap ih =>
    obtain ⟨hc, hgap⟩ := List.forall_mem_cons.mp hgap
    rw [next_blank hc, ih _ hgap, Position.after_cons]

/-- After blanks the token is read that is spelled there. -/
theorem next_of_spelled {gap : List Char} (pos : Position)
    (hgap : ∀ c ∈ gap, isBlank c = true) (hw : Spelled k w)
    (hcs : k.isWord = true → NoLetter cs) :
    next ⟨gap ++ (w ++ cs), pos⟩ =
      (⟨k, String.ofList w, (pos.after gap).spanTo (pos.after (gap ++ w))⟩,
        ⟨cs, pos.after (gap ++ w)⟩) := by
  induction gap generalizing pos with
  | nil =>
    cases w with
    | nil => exact absurd rfl hw.ne_nil
    | cons c w =>
      have hskip : skipBlanks ⟨c :: (w ++ cs), pos⟩ = ⟨c :: (w ++ cs), pos⟩ := by
        simp [skipBlanks, Scan.blanks, hw.not_blank]
      simp [next, hskip, front_of_spelled hw hcs, skip]
  | cons c gap ih =>
    obtain ⟨hc, hgap⟩ := List.forall_mem_cons.mp hgap
    rw [List.cons_append, next_blank hc, ih _ hgap, List.cons_append, Position.after_cons,
      Position.after_cons]

end Lexer

/-! ## What a text begins with -/

/-- A text is blanks and nothing else, or blanks, a token that is as long as can be, and a rest. -/
inductive Begins : List Char → Prop
  | blank {gap : List Char} : (∀ c ∈ gap, isBlank c = true) → Begins gap
  | token {gap w rest : List Char} {k : Token.Kind} : (∀ c ∈ gap, isBlank c = true) →
    Spelled k w → (k.isWord = true → NoLetter rest) → Begins (gap ++ (w ++ rest))

/-- At a character that is no blank a token begins. -/
theorem exists_spelled (cs : List Char) (hc : isBlank c = false) :
    ∃ k w rest, c :: cs = w ++ rest ∧ Spelled k w ∧ (k.isWord = true → NoLetter rest) := by
  cases hsymbol : Token.Kind.ofSymbol? c with
  | some k =>
    refine ⟨k, [c], cs, rfl, .symbol hsymbol, ?_⟩
    intro hk
    rw [(kind_of_symbol hsymbol).1] at hk
    cases hk
  | none =>
    cases hletter : c.isAlpha with
    | true =>
      refine ⟨_, c :: cs.takeWhile Char.isAlpha, cs.dropWhile Char.isAlpha, ?_,
        .word (List.cons_ne_nil _ _) ?_, fun _ => noLetter_dropWhile cs⟩
      · rw [List.cons_append, List.takeWhile_append_dropWhile]
      · exact List.forall_mem_cons.mpr ⟨hletter, List.all_eq_true.mp List.all_takeWhile⟩
    | false => exact ⟨.illegal, [c], cs, rfl, .illegal hc hletter hsymbol, fun hk => by cases hk⟩

/-- There is nothing else that a text can begin with. -/
theorem begins (cs : List Char) : Begins cs := by
  have hgap : ∀ c ∈ cs.takeWhile isBlank, isBlank c = true :=
    List.all_eq_true.mp List.all_takeWhile
  rw [← List.takeWhile_append_dropWhile (p := isBlank) (l := cs)]
  cases hrest : cs.dropWhile isBlank with
  | nil =>
    rw [List.append_nil]
    exact .blank hgap
  | cons c rest =>
    have hc : isBlank c = false := by
      have h := List.head?_dropWhile_not isBlank cs
      rwa [hrest] at h
    obtain ⟨k, w, rest', hsplit, hw, hend⟩ := exists_spelled rest hc
    rw [hsplit]
    exact .token hgap hw hend

/-- A token that is read is spelled as its kind asks for. -/
theorem Lexer.spelled_next {l : Lexer} (h : l.next.1.kind ≠ .endOfInput) :
    Spelled l.next.1.kind l.next.1.literal.toList := by
  obtain ⟨text, pos⟩ := l
  cases begins text with
  | blank hgap =>
    rw [next_of_blanks pos hgap] at h
    exact absurd rfl h
  | token hgap hw hend =>
    rw [next_of_spelled pos hgap hw hend]
    simpa using hw

end Guardedness
