import Guardedness.Proofs.Lexer.Calls

/-!
# The decomposition of a text

The tokens of a text, with the blanks before each of them, make up the text. This decomposition is
the only one in which every part is what its kind says and no word could be longer.

That can be said of all parts at once (`MaximalMunch`), or part by part (`Munches`): a gap and a
token are taken off the front of the text and the rest is decomposed. A lexer does just that
(`munches_pieces`), and there is one way only to do it (`Munches.eq_pieces`). The two descriptions
agree (`Munches.maximalMunch`, `MaximalMunch.munches`): that no letter stands on the left of a word
comes from the token there being as long as can be, if it is a word, and from its being no letter,
if it is not.
-/

namespace Guardedness

/-- The punctuation characters and their kinds. -/
def punctuation : List (Char × Token.Kind) :=
  [('|', .pipe), ('+', .plus), ('\\', .backslash), ('[', .bracketOpen), (']', .bracketClose),
    ('.', .dot), ('(', .parenOpen), (')', .parenClose)]

theorem ofSymbol?_eq_some {c : Char} {k : Token.Kind} :
    Token.Kind.ofSymbol? c = some k ↔ (c, k) ∈ punctuation := by
  constructor
  · intro h
    unfold Token.Kind.ofSymbol? at h
    split at h <;> first | (cases h; decide) | cases h
  · intro h
    simp only [punctuation, List.mem_cons, Prod.mk.injEq, List.not_mem_nil, or_false] at h
    rcases h with ⟨rfl, rfl⟩ | ⟨rfl, rfl⟩ | ⟨rfl, rfl⟩ | ⟨rfl, rfl⟩ | ⟨rfl, rfl⟩ | ⟨rfl, rfl⟩ |
      ⟨rfl, rfl⟩ | ⟨rfl, rfl⟩ <;> rfl

/-- A part of a text: blanks, and the token after them. -/
structure Piece where
  gap : List Char
  kind : Token.Kind
  literal : String
deriving DecidableEq, Repr

namespace Piece

def chars (p : Piece) : List Char := p.gap ++ p.literal.toList

def charsOf (ps : List Piece) : List Char := ps.flatMap chars

def spelling (p : Piece) : Token.Kind × String := (p.kind, p.literal)

@[simp] theorem charsOf_nil : charsOf [] = [] := rfl

@[simp] theorem charsOf_cons (p : Piece) (ps : List Piece) :
    charsOf (p :: ps) = p.gap ++ (p.literal.toList ++ charsOf ps) := List.append_assoc ..

end Piece

open Piece (charsOf)

/-- A text is decomposed into `ps`, and no word could be longer. -/
structure MaximalMunch (text : List Char) (ps : List Piece) : Prop where
  chars : charsOf ps = text
  gap : ∀ p ∈ ps, ∀ c ∈ p.gap, c = ' ' ∨ c = '\t' ∨ c = '\r' ∨ c = '\n'
  last : ∃ front gap, ps = front ++ [⟨gap, .endOfInput, ""⟩] ∧
    ∀ p ∈ front, p.kind ≠ .endOfInput ∧ p.literal ≠ ""
  word : ∀ p ∈ ps, p.kind.isWord = true ↔
    p.literal ≠ "" ∧ ∀ c ∈ p.literal.toList, c.isAlpha = true
  /-- No letter stands next to a word, before it or after it. -/
  alone : ∀ before p after, ps = before ++ p :: after → p.kind.isWord = true →
    NoLetter (charsOf before ++ p.gap).reverse ∧ NoLetter (charsOf after)
  reserved : ∀ p ∈ ps, (p.kind = .keyword .nilWord ↔ p.literal = "nil") ∧
    (p.kind = .keyword .recWord ↔ p.literal = "rec")
  symbol : ∀ p ∈ ps, ∀ c k, (c, k) ∈ punctuation → (p.kind = k ↔ p.literal.toList = [c])
  illegal : ∀ p ∈ ps, p.kind = .illegal ↔ ∃ c, p.literal.toList = [c] ∧ isBlank c = false ∧
    c.isAlpha = false ∧ ∀ k, (c, k) ∉ punctuation

/-- A text is decomposed by taking gaps and tokens off its front. -/
inductive Munches : List Char → List Piece → Prop
  | stop {gap : List Char} : (∀ c ∈ gap, isBlank c = true) → Munches gap [⟨gap, .endOfInput, ""⟩]
  | token {gap w rest : List Char} {k : Token.Kind} {ps : List Piece} :
    (∀ c ∈ gap, isBlank c = true) → Spelled k w → (k.isWord = true → NoLetter rest) →
    Munches rest ps → Munches (gap ++ (w ++ rest)) (⟨gap, k, String.ofList w⟩ :: ps)

variable {text cs gap w : List Char} {ps : List Piece} {p : Piece} {k : Token.Kind}

/-! ## A lexer takes pieces off a text -/

/-- The pieces that a lexer reads. -/
def Lexer.pieces (l : Lexer) : List Piece :=
  ⟨(Scan.blanks l.rest).1, l.next.1.kind, l.next.1.literal⟩ ::
    if _h : l.next.1.kind = .endOfInput then [] else l.next.2.pieces
termination_by l.rest.length
decreasing_by exact next_shrinks l ‹_›

theorem Lexer.spelling_pieces (l : Lexer) :
    l.pieces.map Piece.spelling = l.tokens.map Token.spelling := by
  induction l using induct with
  | stop l h =>
    rw [pieces, dif_pos h, tokens_of_end h]
    rfl
  | more l h ih =>
    rw [pieces, dif_neg h, tokens_of_ne h, List.map_cons, List.map_cons, ih]
    rfl

theorem blanks_of_blanks (hgap : ∀ c ∈ gap, isBlank c = true) : (Scan.blanks gap).1 = gap := by
  have h : (gap ++ []).takeWhile isBlank = gap ++ [].takeWhile isBlank :=
    List.takeWhile_append_of_pos hgap
  simpa [Scan.blanks] using h

theorem blanks_of_spelled (hgap : ∀ c ∈ gap, isBlank c = true) (hw : Spelled k w) :
    (Scan.blanks (gap ++ (w ++ cs))).1 = gap := by
  cases w with
  | nil => exact absurd rfl hw.ne_nil
  | cons c w =>
    rw [Scan.blanks, List.takeWhile_append_of_pos hgap, List.cons_append,
      List.takeWhile_cons_of_neg (by simp [hw.not_blank]), List.append_nil]

/-- There is only one decomposition of this kind, and a lexer finds it. -/
theorem Munches.eq_pieces (h : Munches text ps) (pos : Position) :
    ps = (Lexer.mk text pos).pieces := by
  induction h generalizing pos with
  | stop hgap =>
    rw [Lexer.pieces, Lexer.next_of_blanks pos hgap, dif_pos rfl, blanks_of_blanks hgap]
  | token hgap hw hend _ ih =>
    rw [Lexer.pieces, Lexer.next_of_spelled pos hgap hw hend, dif_neg hw.ne_endOfInput,
      blanks_of_spelled hgap hw, ← ih]

theorem munches_pieces (l : Lexer) : Munches l.rest l.pieces := by
  induction l using Lexer.induct with
  | stop l h =>
    obtain ⟨text, pos⟩ := l
    cases begins text with
    | blank hgap =>
      rw [← (Munches.stop hgap).eq_pieces pos]
      exact .stop hgap
    | token hgap hw hend =>
      rw [Lexer.next_of_spelled pos hgap hw hend] at h
      exact absurd h hw.ne_endOfInput
  | more l h ih =>
    obtain ⟨text, pos⟩ := l
    cases begins text with
    | blank hgap =>
      rw [Lexer.next_of_blanks pos hgap] at h
      exact absurd rfl h
    | token hgap hw hend =>
      rw [Lexer.next_of_spelled pos hgap hw hend] at ih
      have hmunches := Munches.token hgap hw hend ih
      rwa [hmunches.eq_pieces pos] at hmunches

/-! ## Both descriptions agree -/

theorem isBlank_iff {c : Char} :
    isBlank c = true ↔ c = ' ' ∨ c = '\t' ∨ c = '\r' ∨ c = '\n' := by
  simp [isBlank, or_assoc]

theorem isAlpha_of_isBlank {c : Char} (h : isBlank c = true) : c.isAlpha = false := by
  rcases isBlank_iff.mp h with rfl | rfl | rfl | rfl <;> rfl

/-- The spellings that are no words are single characters and no letters. -/
theorem Spelled.not_word (h : Spelled k w) (hk : k.isWord = false) :
    ∃ c, w = [c] ∧ c.isAlpha = false := by
  cases h with
  | word => rw [Token.Kind.isWord_ofWord] at hk; cases hk
  | symbol hc => exact ⟨_, rfl, (of_symbol hc).2⟩
  | illegal _ hletter => exact ⟨_, rfl, hletter⟩

theorem Spelled.letters (h : Spelled k w) (hk : k.isWord = true) : ∀ c ∈ w, c.isAlpha = true := by
  cases h with
  | word _ hw => exact hw
  | symbol hc => rw [(kind_of_symbol hc).1] at hk; cases hk
  | illegal => cases hk

/-! ### What a kind says of a spelling -/

theorem Spelled.isWord_iff (h : Spelled k w) :
    k.isWord = true ↔ w ≠ [] ∧ ∀ c ∈ w, c.isAlpha = true := by
  constructor
  · intro hk
    exact ⟨h.ne_nil, h.letters hk⟩
  · rintro ⟨-, hw⟩
    refine (Bool.not_eq_false _).mp ?_
    intro hk
    obtain ⟨c, rfl, hc⟩ := h.not_word hk
    rw [hw c List.mem_cons_self] at hc
    cases hc

theorem Spelled.kind_unique {k' : Token.Kind} (h : Spelled k w) (h' : Spelled k' w) : k = k' := by
  cases w with
  | nil => exact absurd rfl h.ne_nil
  | cons c w =>
    have hfront : Lexer.front c (w ++ []) = (k, c :: w) :=
      Lexer.front_of_spelled h fun _ => noLetter_nil
    rw [Lexer.front_of_spelled h' fun _ => noLetter_nil] at hfront
    exact (congrArg Prod.fst hfront).symm

theorem Spelled.eq_keyword_iff {r : Keyword} (h : Spelled k w) :
    k = .keyword r ↔ String.ofList w = r.text := by
  constructor
  · intro hk
    cases h with
    | word => exact Token.Kind.ofWord_eq_keyword.mp hk
    | symbol hc =>
      have := (kind_of_symbol hc).1
      rw [hk] at this
      cases this
    | illegal => cases hk
  · intro hw
    have hletters : ∀ c ∈ w, c.isAlpha = true := by
      rw [← String.toList_ofList (l := w), hw]
      cases r <;> exact List.all_eq_true.mp rfl
    rw [h.kind_unique (.word h.ne_nil hletters)]
    exact Token.Kind.ofWord_eq_keyword.mpr hw

theorem exists_symbol (hword : ¬k.isWord = true) (hillegal : k ≠ .illegal)
    (hend : k ≠ .endOfInput) : ∃ q ∈ punctuation, q.2 = k := by
  cases k <;> first | decide | exact absurd rfl ‹_›

theorem symbol_unique {c d : Char} (hc : Token.Kind.ofSymbol? c = some k)
    (hd : Token.Kind.ofSymbol? d = some k) : c = d := by
  have key : ∀ p ∈ punctuation, ∀ q ∈ punctuation, p.2 = q.2 → p.1 = q.1 := by decide
  exact key _ (ofSymbol?_eq_some.mp hc) _ (ofSymbol?_eq_some.mp hd) rfl

theorem Spelled.eq_symbol_iff {c : Char} {k' : Token.Kind} (h : Spelled k w)
    (hc : Token.Kind.ofSymbol? c = some k') : k = k' ↔ w = [c] := by
  constructor
  · rintro rfl
    cases h with
    | word =>
      have := (kind_of_symbol hc).1
      rw [Token.Kind.isWord_ofWord] at this
      cases this
    | symbol hd => rw [symbol_unique hc hd]
    | illegal => exact absurd rfl (kind_of_symbol hc).2.1
  · rintro rfl
    exact h.kind_unique (.symbol hc)

theorem Spelled.eq_illegal_iff (h : Spelled k w) : k = .illegal ↔
    ∃ c, w = [c] ∧ isBlank c = false ∧ c.isAlpha = false ∧ Token.Kind.ofSymbol? c = none := by
  constructor
  · intro hk
    cases h with
    | @word w =>
      have := Token.Kind.isWord_ofWord (String.ofList w)
      rw [hk] at this
      cases this
    | symbol hc => exact absurd hk (kind_of_symbol hc).2.1
    | illegal hblank hletter hsymbol => exact ⟨_, rfl, hblank, hletter, hsymbol⟩
  · rintro ⟨c, rfl, hblank, hletter, hsymbol⟩
    exact h.kind_unique (.illegal hblank hletter hsymbol)

namespace Munches

theorem charsOf_eq (h : Munches text ps) : charsOf ps = text := by
  induction h with
  | stop => simp
  | token _ _ _ _ ih => rw [Piece.charsOf_cons, ih, String.toList_ofList]

/-- What is known of every spelling after blanks, and of the end token, is known of every piece. -/
theorem forall_piece (h : Munches text ps) {P : Piece → Prop}
    (stop : ∀ gap, (∀ c ∈ gap, isBlank c = true) → P ⟨gap, .endOfInput, ""⟩)
    (token : ∀ gap k w, (∀ c ∈ gap, isBlank c = true) → Spelled k w → P ⟨gap, k, String.ofList w⟩) :
    ∀ p ∈ ps, P p := by
  induction h with
  | stop hgap => simpa using stop _ hgap
  | token hgap hw _ _ ih => exact List.forall_mem_cons.mpr ⟨token _ _ _ hgap hw, ih⟩

theorem last (h : Munches text ps) : ∃ front gap, ps = front ++ [⟨gap, .endOfInput, ""⟩] ∧
    ∀ p ∈ front, p.kind ≠ .endOfInput ∧ p.literal ≠ "" := by
  induction h with
  | @stop gap _ => exact ⟨[], gap, rfl, List.forall_mem_nil _⟩
  | token hgap hw _ _ ih =>
    obtain ⟨front, gap, rfl, hfront⟩ := ih
    refine ⟨_ :: front, gap, rfl, List.forall_mem_cons.mpr ⟨⟨hw.ne_endOfInput, ?_⟩, hfront⟩⟩
    simpa using hw.ne_nil

/-- No letter stands next to a word, if none stands before the text or none begins it. -/
theorem alone (h : Munches text ps) : ∀ prev, NoLetter prev.reverse ∨ NoLetter text →
    ∀ before p after, ps = before ++ p :: after → p.kind.isWord = true →
      NoLetter (prev ++ (charsOf before ++ p.gap)).reverse ∧ NoLetter (charsOf after) := by
  induction h with
  | stop =>
    intro prev _ before p after hsplit hp
    cases before with
    | nil =>
      obtain ⟨rfl, -⟩ := List.cons.inj hsplit
      cases hp
    | cons q before => simp at hsplit
  | @token gap w rest k ps hgap hw hend hrest ih =>
    intro prev hprev before p after hsplit hp
    cases before with
    | nil =>
      obtain ⟨rfl, rfl⟩ := List.cons.inj hsplit
      refine ⟨?_, by rw [hrest.charsOf_eq]; exact hend hp⟩
      rw [Piece.charsOf_nil, List.nil_append]
      rcases gap.eq_nil_or_concat with rfl | ⟨gap, c, rfl⟩
      · -- no gap: the word begins the text, and only the text before can be without a letter
        rw [List.append_nil]
        exact hprev.resolve_right (not_noLetter (w := w) hw.ne_nil (hw.letters hp))
      · rw [List.concat_eq_append, ← List.append_assoc, List.reverse_append]
        exact noLetter_cons (isAlpha_of_isBlank (hgap c (by simp)))
    | cons q before =>
      obtain ⟨rfl, hrest⟩ := List.cons.inj hsplit
      have hprev' : NoLetter (prev ++ (gap ++ w)).reverse ∨ NoLetter rest := by
        cases hk : k.isWord with
        | true => exact .inr (hend hk)
        | false =>
          obtain ⟨c, rfl, hc⟩ := hw.not_word hk
          rw [← List.append_assoc, List.reverse_append]
          exact .inl (noLetter_cons hc)
      simpa using ih (prev ++ (gap ++ w)) hprev' before p after hrest hp

theorem maximalMunch (h : Munches text ps) : MaximalMunch text ps where
  chars := h.charsOf_eq
  gap := h.forall_piece (fun _ hgap c hc => isBlank_iff.mp (hgap c hc))
    (fun _ _ _ hgap _ c hc => isBlank_iff.mp (hgap c hc))
  last := h.last
  word := h.forall_piece (fun _ _ => by simp [Token.Kind.isWord])
    (fun _ _ _ _ hw => by simpa using hw.isWord_iff)
  alone := by simpa using h.alone [] (.inl noLetter_nil)
  reserved := h.forall_piece (fun _ _ => by simp)
    (fun _ _ _ _ hw => ⟨hw.eq_keyword_iff, hw.eq_keyword_iff⟩)
  symbol := h.forall_piece
    (fun _ _ c k hc => by
      simp [Ne.symm (kind_of_symbol (ofSymbol?_eq_some.mpr hc)).2.2])
    (fun _ _ _ _ hw c k hc => by
      simpa using hw.eq_symbol_iff (ofSymbol?_eq_some.mpr hc))
  illegal := h.forall_piece (fun _ _ => by simp)
    (fun _ _ _ _ hw => by
      simpa [← ofSymbol?_eq_some, ← Option.eq_none_iff_forall_ne_some] using hw.eq_illegal_iff)

end Munches

namespace MaximalMunch

theorem gap_of_end (h : MaximalMunch text [p]) : p = ⟨text, .endOfInput, ""⟩ := by
  obtain ⟨front, gap, hsplit, -⟩ := h.last
  cases front with
  | nil =>
    obtain rfl := List.singleton_inj.mp hsplit
    simpa using h.chars
  | cons q front => simp at hsplit

theorem tail (h : MaximalMunch text (p :: ps)) (hne : ps ≠ []) :
    p.kind ≠ .endOfInput ∧ MaximalMunch (charsOf ps) ps := by
  obtain ⟨front, gap, hsplit, hfront⟩ := h.last
  cases front with
  | nil => exact absurd (List.cons.inj hsplit).2 hne
  | cons q front =>
    obtain ⟨rfl, rfl⟩ := List.cons.inj hsplit
    obtain ⟨⟨hkind, -⟩, hfront⟩ := List.forall_mem_cons.mp hfront
    refine ⟨hkind, ?_⟩
    exact {
      chars := rfl
      gap := (List.forall_mem_cons.mp h.gap).2
      last := ⟨front, gap, rfl, hfront⟩
      word := (List.forall_mem_cons.mp h.word).2
      alone := by
        intro before q after hsplit hq
        obtain ⟨hleft, hright⟩ := h.alone (p :: before) q after (by rw [hsplit]; rfl) hq
        rw [Piece.charsOf_cons, List.append_assoc, List.append_assoc, List.reverse_append,
          List.reverse_append, List.append_assoc] at hleft
        exact ⟨noLetter_of_append hleft, hright⟩
      reserved := (List.forall_mem_cons.mp h.reserved).2
      symbol := (List.forall_mem_cons.mp h.symbol).2
      illegal := (List.forall_mem_cons.mp h.illegal).2 }

theorem kind_of_word (h : MaximalMunch text ps) (hp : p ∈ ps) (hword : p.kind.isWord = true) :
    p.kind = .ofWord p.literal := by
  obtain ⟨hnil, hrec⟩ := h.reserved p hp
  cases hk : p.kind with
  | identifier =>
    refine (Token.Kind.ofWord_eq_identifier.mpr ⟨?_, ?_⟩).symm
    · intro hliteral
      rw [hnil.mpr hliteral] at hk
      cases hk
    · intro hliteral
      rw [hrec.mpr hliteral] at hk
      cases hk
  | keyword r =>
    refine (Token.Kind.ofWord_eq_keyword.mpr ?_).symm
    cases r with
    | nilWord => exact hnil.mp hk
    | recWord => exact hrec.mp hk
  | _ => rw [hk] at hword; cases hword

theorem spelled (h : MaximalMunch text ps) (hp : p ∈ ps) (hend : p.kind ≠ .endOfInput) :
    Spelled p.kind p.literal.toList := by
  by_cases hword : p.kind.isWord = true
  · obtain ⟨hne, hletters⟩ := (h.word p hp).mp hword
    have hspelled := Spelled.word (by simpa using hne) hletters
    rwa [String.ofList_toList, ← h.kind_of_word hp hword] at hspelled
  · by_cases hillegal : p.kind = .illegal
    · obtain ⟨c, hliteral, hblank, hletter, hsymbol⟩ := (h.illegal p hp).mp hillegal
      rw [hillegal, hliteral]
      refine .illegal hblank hletter (Option.eq_none_iff_forall_ne_some.mpr ?_)
      intro k hk
      exact hsymbol k (ofSymbol?_eq_some.mp hk)
    · obtain ⟨⟨c, k⟩, hmem, hk⟩ := exists_symbol hword hillegal hend
      rw [(h.symbol p hp c _ (hk ▸ hmem)).mp rfl]
      exact .symbol (ofSymbol?_eq_some.mpr (hk ▸ hmem))

theorem munches (h : MaximalMunch text ps) : Munches text ps := by
  induction ps generalizing text with
  | nil =>
    obtain ⟨front, gap, hsplit, -⟩ := h.last
    simp at hsplit
  | cons p ps ih =>
    have hgap : ∀ c ∈ p.gap, isBlank c = true :=
      fun c hc => isBlank_iff.mpr (h.gap p List.mem_cons_self c hc)
    cases ps with
    | nil =>
      obtain rfl := h.gap_of_end
      exact .stop hgap
    | cons q ps =>
      obtain ⟨hkind, htail⟩ := h.tail (List.cons_ne_nil q ps)
      have hend (hword : p.kind.isWord = true) := (h.alone [] p (q :: ps) rfl hword).2
      have hmunches := Munches.token hgap (h.spelled List.mem_cons_self hkind) hend (ih htail)
      rwa [String.ofList_toList, ← Piece.charsOf_cons, h.chars] at hmunches

end MaximalMunch

/-- **The tokens of a text are those of its only decomposition into gaps and tokens in which every
token is as its kind says and no word could be longer.** -/
theorem tokens_maximalMunch (s : String) : ∃ ps, MaximalMunch s.toList ps ∧
    ps.map Piece.spelling = (Lexer.ofText s).tokens.map Token.spelling ∧
    ∀ ps', MaximalMunch s.toList ps' → ps' = ps :=
  ⟨(Lexer.ofText s).pieces, (munches_pieces (Lexer.ofText s)).maximalMunch,
    Lexer.spelling_pieces (Lexer.ofText s), fun _ h => h.munches.eq_pieces .start⟩

/-- However a text is decomposed, `recs →` is an identifier and one illegal token. -/
theorem tokens_maximalMunch_of_arrow : ∃ ps, MaximalMunch "recs →".toList ps ∧
    ∀ ps', MaximalMunch "recs →".toList ps' → ps'.map Piece.spelling =
      [(.identifier, "recs"), (.illegal, "→"), (.endOfInput, "")] := by
  obtain ⟨ps, h, htokens, hunique⟩ := tokens_maximalMunch "recs →"
  refine ⟨ps, h, ?_⟩
  intro ps' h'
  rw [hunique ps' h', htokens, Lexer.tokens_of_ne (by decide), Lexer.tokens_of_ne (by decide),
    Lexer.tokens_of_end (by decide)]
  decide

end Guardedness
