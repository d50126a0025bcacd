import Guardedness.Proofs.Lexer.Munch
import Guardedness.Proofs.Lexer.Places

/-!
# A text in two parts

A text that is cut in two has the tokens of its parts, the end token of the first part left out,
unless the cut goes through a run of letters.

**Places** (`Position.shift`). The bytes and the lines of a place in the second part are counted
from behind the first part, and on the first line its columns are, too. A lexer that starts there
reads the tokens of the second part with their places shifted like this (`Lexer.tokens_shift`).

**The seam** (`Lexer.tokens_append`). A lexer that reads the first part does not see what is behind
it, except where a word ends there or where blanks do. A word goes on if a letter is behind it; that
is excluded. Blanks go on if more of them are behind them, but these belong to no token.
-/

namespace Guardedness

/-- A letter ends the one text and a letter begins the other. -/
def LettersMeet (s t : String) : Prop :=
  (∃ c ∈ s.toList.getLast?, c.isAlpha = true) ∧ ∃ c ∈ t.toList.head?, c.isAlpha = true

/-- The number of characters since the last line feed. -/
def lastLineLength (s : String) : Nat := (s.toList.reverse.takeWhile (· ≠ '\n')).length

/-- A place in a text as a place in the longer text that has `s` before it. -/
def Position.shift (p : Position) (s : String) : Position where
  offset := s.utf8ByteSize + p.offset
  line := s.toList.count '\n' + p.line
  column := if p.line = 1 then lastLineLength s + p.column else p.column

def Span.shift (x : Span) (s : String) : Span where
  start := s.utf8ByteSize + x.start
  stop := s.utf8ByteSize + x.stop
  line := s.toList.count '\n' + x.line
  column := if x.line = 1 then lastLineLength s + x.column else x.column

/-- A token of a text as a token of the longer text that has `s` before it. -/
def Token.shift (t : Token) (s : String) : Token := { t with span := t.span.shift s }

def Lexer.shift (l : Lexer) (s : String) : Lexer := ⟨l.rest, l.position.shift s⟩

variable {s t gap : String} {cs : List Char}

theorem noLetter_of_blanks {gap : List Char} (hgap : ∀ c ∈ gap, isBlank c = true) :
    NoLetter gap := by
  intro c hc
  exact isAlpha_of_isBlank (hgap c (List.mem_of_mem_head? hc))

theorem noLetter_reverse_of_append {w : List Char} (h : NoLetter (w ++ cs).reverse) :
    NoLetter cs.reverse := by
  rw [List.reverse_append] at h
  exact noLetter_of_append h

theorem noLetter_of_not_lettersMeet (h : ¬LettersMeet s t) :
    NoLetter s.toList.reverse ∨ NoLetter t.toList := by
  by_cases hs : NoLetter s.toList.reverse
  · exact .inl hs
  · by_cases ht : NoLetter t.toList
    · exact .inr ht
    · exact absurd ⟨by simpa [NoLetter] using hs, by simpa [NoLetter] using ht⟩ h

theorem not_lettersMeet_of_gap (hgap : ∀ c ∈ gap.toList, isBlank c = true) (hne : gap ≠ "") :
    ¬LettersMeet (s ++ gap) t := by
  intro hmeet
  obtain ⟨⟨c, hc, hletter⟩, -⟩ := hmeet
  obtain hnil | ⟨front, d, hsplit⟩ := gap.toList.eq_nil_or_concat
  · exact hne (String.toList_eq_nil_iff.mp hnil)
  · rw [String.toList_append, hsplit, List.concat_eq_append, ← List.append_assoc,
      List.getLast?_concat] at hc
    obtain rfl := Option.some.inj hc
    have hblank := hgap d (by simp [hsplit])
    rw [isAlpha_of_isBlank hblank] at hletter
    cases hletter

/-! ## Places in the second part -/

namespace Position

variable {p : Position}

theorem line_le_after (p : Position) (cs : List Char) : p.line ≤ (p.after cs).line := by
  induction cs generalizing p with
  | nil => exact Nat.le_refl _
  | cons c cs ih =>
    refine Nat.le_trans ?_ (ih (p.next c))
    unfold next
    split
    · exact Nat.le_succ _
    · exact Nat.le_refl _

theorem shift_next (hp : 1 ≤ p.line) (c : Char) : (p.shift s).next c = (p.next c).shift s := by
  unfold next
  split
  · -- the first line is over, and so columns are counted from a line feed of the second part
    have hline : p.line ≠ 0 := Nat.ne_zero_of_lt hp
    simp [shift, hline, Nat.add_assoc]
  · by_cases hline : p.line = 1
    · simp [shift, hline, Nat.add_assoc]
    · simp [shift, hline, Nat.add_assoc]

theorem shift_after (hp : 1 ≤ p.line) (cs : List Char) :
    (p.shift s).after cs = (p.after cs).shift s := by
  induction cs generalizing p with
  | nil => rfl
  | cons c cs ih =>
    have hnext : 1 ≤ (p.next c).line := Nat.le_trans hp (line_le_after p [c])
    rw [after_cons, after_cons, shift_next hp, ih hnext]

theorem shift_spanTo (p q : Position) : (p.shift s).spanTo (q.shift s) = (p.spanTo q).shift s := rfl

theorem Behind.eq_shift (h : p.Behind s.toList) : p = start.shift s := by
  obtain ⟨offset, line, column⟩ := p
  obtain ⟨rfl, rfl, rfl⟩ := h
  simp [shift, start, lastLineLength, Nat.add_comm]

end Position

namespace Lexer

variable {l : Lexer}

/-- A call in the second part reads the token that it reads there, in its place in the whole. -/
theorem shift_next (hl : 1 ≤ l.position.line) :
    (l.shift s).next = (l.next.1.shift s, l.next.2.shift s) := by
  obtain ⟨cs, pos⟩ := l
  rw [shift]
  cases begins cs with
  | blank hgap =>
    rw [next_of_blanks _ hgap, next_of_blanks _ hgap]
    simp only [Position.shift_after hl, Position.shift_spanTo]
    rfl
  | token hgap hw hend =>
    rw [next_of_spelled _ hgap hw hend, next_of_spelled _ hgap hw hend]
    simp only [Position.shift_after hl, Position.shift_spanTo]
    rfl

theorem line_le_next (l : Lexer) : l.position.line ≤ l.next.2.position.line := by
  obtain ⟨gap, hcall⟩ := exists_call l
  rw [hcall.position]
  exact Nat.le_trans (Position.line_le_after _ _) (Position.line_le_after _ _)

theorem tokens_shift (hl : 1 ≤ l.position.line) :
    (l.shift s).tokens = l.tokens.map (·.shift s) := by
  induction l using induct with
  | stop l h =>
    have hnext := shift_next (s := s) hl
    rw [tokens_of_end h, tokens_of_end (by rw [hnext]; exact h), hnext]
    rfl
  | more l h ih =>
    have hnext := shift_next (s := s) hl
    rw [tokens_of_ne h, tokens_of_ne (by rw [hnext]; exact h), hnext, List.map_cons,
      ih (Nat.le_trans hl (line_le_next l))]

/-! ## The seam -/

theorem blank_of_end (h : l.next.1.kind = .endOfInput) : ∀ c ∈ l.rest, isBlank c = true := by
  obtain ⟨gap, hcall⟩ := exists_call l
  rw [hcall.rest_eq_gap h]
  exact hcall.blank

theorem next_append_blanks {gap : List Char} (pos : Position) (hgap : ∀ c ∈ gap, isBlank c = true) :
    next ⟨gap ++ cs, pos⟩ = next ⟨cs, pos.after gap⟩ := by
  induction gap generalizing pos with
  | nil => rfl
  | cons c gap ih =>
    obtain ⟨hc, hgap⟩ := List.forall_mem_cons.mp hgap
    rw [List.cons_append, next_blank hc, ih _ hgap, Position.after_cons]

theorem tokens_eq_of_next {l' : Lexer} (h : l.next = l'.next) : l.tokens = l'.tokens := by
  by_cases hend : l.next.1.kind = .endOfInput
  · have hend' : l'.next.1.kind = .endOfInput := h ▸ hend
    rw [tokens_of_end hend, tokens_of_end hend', h]
  · have hend' : l'.next.1.kind ≠ .endOfInput := h ▸ hend
    rw [tokens_of_ne hend, tokens_of_ne hend', h]

/-- A lexer that reads a token before `tail` reads it before any other text, if no letter meets a
letter there. -/
theorem next_before {tail : List Char} (h : l.next.1.kind ≠ .endOfInput)
    (hrest : l.next.2.rest = cs ++ tail) : ∃ read, l.rest = read ++ cs ++ tail ∧
      ∀ tail', NoLetter (read ++ cs).reverse ∨ NoLetter tail' →
        next ⟨read ++ cs ++ tail', l.position⟩ = (l.next.1, ⟨cs ++ tail', l.next.2.position⟩) := by
  obtain ⟨text, pos⟩ := l
  cases begins text with
  | blank hgap =>
    rw [next_of_blanks pos hgap] at h
    exact absurd rfl h
  | @token gap w rest k hgap hw hend =>
    have hnext := next_of_spelled pos hgap hw hend
    rw [hnext] at hrest
    obtain rfl : rest = cs ++ tail := hrest
    refine ⟨gap ++ w, by simp, ?_⟩
    intro tail' hseam
    have hend' : k.isWord = true → NoLetter (cs ++ tail') := by
      intro hk
      cases cs with
      | cons c cs => exact noLetter_cons (hend hk c rfl)
      | nil =>
        -- The word ends at the seam, and so it is the other text that no letter begins.
        refine hseam.resolve_left ?_
        rw [List.append_nil, List.reverse_append]
        refine not_noLetter (List.reverse_ne_nil_iff.mpr hw.ne_nil) ?_
        intro c hc
        exact hw.letters hk c (List.mem_reverse.mp hc)
    have htext : gap ++ w ++ cs ++ tail' = gap ++ (w ++ (cs ++ tail')) := by
      simp only [List.append_assoc]
    rw [hnext, htext, next_of_spelled pos hgap hw hend']

/-- What is behind a text has its own tokens, if no letter meets a letter there. -/
theorem tokens_append (l : Lexer) (h : NoLetter l.rest.reverse ∨ NoLetter cs) :
    tokens ⟨l.rest ++ cs, l.position⟩ =
      l.tokens.dropLast ++ tokens ⟨cs, l.position.after l.rest⟩ := by
  induction l using induct with
  | stop l hend =>
    rw [tokens_of_end hend]
    exact tokens_eq_of_next (next_append_blanks l.position (blank_of_end hend))
  | more l hne ih =>
    obtain ⟨gap, hcall⟩ := exists_call l
    obtain ⟨read, hread, hnext⟩ := next_before hne (List.append_nil l.next.2.rest).symm
    rw [List.append_nil] at hread
    have hplace : l.next.2.position.after l.next.2.rest = l.position.after l.rest := by
      rw [hcall.position, hcall.rest, Position.after_append, Position.after_append]
    have hseam : NoLetter l.next.2.rest.reverse ∨ NoLetter cs := by
      rw [hread] at h
      exact h.imp_left noLetter_reverse_of_append
    have hnext := hnext cs (hread ▸ h)
    rw [← hread] at hnext
    rw [tokens_of_ne (by rw [hnext]; exact hne), hnext, tokens_of_ne hne,
      List.dropLast_cons_of_ne_nil (tokens_ne_nil _), List.cons_append, ← hplace]
    exact congrArg _ (ih hseam)

/-- What a lexer reads in some calls it reads whatever text is behind that, if no letter meets a
letter there. -/
theorem exists_front (n : Nat) (h : ∀ i < n, (l.token i).kind ≠ .endOfInput) :
    ∃ front, l.rest = front ++ (l.afterCalls n).rest ∧
      ∀ tail, NoLetter front.reverse ∨ NoLetter tail →
        afterCalls ⟨front ++ tail, l.position⟩ n = ⟨tail, (l.afterCalls n).position⟩ ∧
        ∀ i < n, token ⟨front ++ tail, l.position⟩ i = l.token i := by
  induction n generalizing l with
  | zero => exact ⟨[], rfl, fun tail _ => ⟨rfl, fun i hi => absurd hi (Nat.not_lt_zero i)⟩⟩
  | succ n ih =>
    obtain ⟨cs, hcs, hrest⟩ := ih (l := l.next.2) fun i hi => h (i + 1) (Nat.succ_lt_succ hi)
    have hne : l.next.1.kind ≠ .endOfInput := h 0 (Nat.succ_pos n)
    obtain ⟨read, hread, hnext⟩ := next_before hne hcs
    refine ⟨read ++ cs, hread, ?_⟩
    intro tail hseam
    obtain ⟨hcalls, htokens⟩ := hrest tail (hseam.imp_left noLetter_reverse_of_append)
    have hfirst := hnext tail hseam
    refine ⟨?_, ?_⟩
    · rw [afterCalls, hfirst]
      exact hcalls
    · intro i hi
      cases i with
      | zero =>
        rw [token, afterCalls_zero, hfirst]
        rfl
      | succ i =>
        have hlater := htokens i (Nat.lt_of_succ_lt_succ hi)
        rw [token, afterCalls, hfirst]
        exact hlater

/-- Blanks at the end of a text change none of its tokens but the end token. -/
theorem dropLast_tokens_append {gap : List Char} (l : Lexer) (hgap : ∀ c ∈ gap, isBlank c = true) :
    (tokens ⟨l.rest ++ gap, l.position⟩).dropLast = l.tokens.dropLast := by
  have hend : (next ⟨gap, l.position.after l.rest⟩).1.kind = .endOfInput := by
    rw [next_of_blanks _ hgap]
  rw [tokens_append l (.inr (noLetter_of_blanks hgap)), tokens_of_end hend, List.dropLast_concat]

/-! ## Two texts in a row -/

theorem tokens_ofText_append (h : ¬LettersMeet s t) :
    (ofText (s ++ t)).tokens = (ofText s).tokens.dropLast ++ (ofText t).tokens.map (·.shift s) := by
  have happend := (ofText s).tokens_append (noLetter_of_not_lettersMeet h)
  have hstart : Position.start.after s.toList = Position.start.shift s :=
    (Position.behind_start.after s.toList).eq_shift
  rw [← tokens_shift (Nat.le_refl 1), shift, ofText, String.toList_append]
  rwa [ofText, hstart] at happend

/-- A gap between two texts shifts the tokens of the second one, and does nothing else. -/
theorem tokens_ofText_gap (hgap : ∀ c ∈ gap.toList, isBlank c = true)
    (h : LettersMeet s t → gap ≠ "") : (ofText (s ++ gap ++ t)).tokens =
      (ofText s).tokens.dropLast ++ (ofText t).tokens.map (·.shift (s ++ gap)) := by
  by_cases hempty : gap = ""
  · rw [hempty, String.append_empty]
    exact tokens_ofText_append fun hmeet => h hmeet hempty
  · rw [tokens_ofText_append (not_lettersMeet_of_gap hgap hempty), ofText, String.toList_append]
    exact congrArg (· ++ _) ((ofText s).dropLast_tokens_append hgap)

/-! ## A text that goes on in another way -/

theorem eq_nil_of_size {more : List Char}
    (h : (String.ofList (cs ++ more)).utf8ByteSize = (String.ofList cs).utf8ByteSize) : more = [] := by
  rw [String.ofList_append, String.utf8ByteSize_append] at h
  have hzero : (String.ofList more).utf8ByteSize = 0 := by omega
  simpa using String.utf8ByteSize_eq_zero_iff.mp hzero

/-- The front of a text is settled by the bytes that it takes. -/
theorem front_unique {cs' tail tail' : List Char} (h : cs ++ tail = cs' ++ tail')
    (hsize : (String.ofList cs).utf8ByteSize = (String.ofList cs').utf8ByteSize) : cs = cs' := by
  obtain ⟨more, rfl, -⟩ | ⟨more, rfl, -⟩ := List.append_eq_append_iff.mp h
  · rw [eq_nil_of_size hsize.symm, List.append_nil]
  · rw [eq_nil_of_size hsize, List.append_nil]

/-- The tokens up to one are the same whatever follows it, if no letter meets a letter there. -/
theorem token_of_front {front back back' : String} {k : Nat}
    (hkind : ((ofText (front ++ back)).token k).kind ≠ .endOfInput)
    (hsize : front.utf8ByteSize = ((ofText (front ++ back)).token k).span.stop)
    (hseam : ¬LettersMeet front back') {i : Nat} (hi : i ≤ k) :
    (ofText (front ++ back')).token i = (ofText (front ++ back)).token i := by
  have hne : ∀ i < k + 1, ((ofText (front ++ back)).token i).kind ≠ .endOfInput :=
    fun i hi => token_ne_end_of_le hkind (Nat.le_of_lt_succ hi)
  obtain ⟨cs, hcs, hread⟩ := exists_front (k + 1) hne
  have hfront : cs = front.toList := by
    obtain ⟨before, hbefore⟩ := (standsBehind_ofText (front ++ back)).afterCalls (k + 1)
    obtain rfl : cs = before := List.append_cancel_right (hcs.symm.trans hbefore.text)
    refine front_unique (hcs.symm.trans String.toList_append) ?_
    rw [← hbefore.behind.offset, offset_afterCalls_succ, String.ofList_toList, hsize]
  subst hfront
  have htoken := (hread back'.toList (noLetter_of_not_lettersMeet hseam)).2 i (Nat.lt_succ_of_le hi)
  rw [← htoken, ofText, String.toList_append]
  rfl

end Lexer

/-- **The tokens of two texts in a row are those of the first one, without its end token, and those
of the second one, shifted to their places behind the first one, unless a letter meets a letter
there. And whatever blanks stand between the two texts, none or some, the tokens are spelled in the
same way, except that where a letter would meet a letter it matters whether there is a blank.** -/
theorem tokens_compose :
    (∀ s t, ¬LettersMeet s t → (Lexer.ofText (s ++ t)).tokens =
      (Lexer.ofText s).tokens.dropLast ++ (Lexer.ofText t).tokens.map (·.shift s)) ∧
    ∀ s t gap gap' : String, (∀ c ∈ gap.toList, isBlank c = true) →
      (∀ c ∈ gap'.toList, isBlank c = true) → (LettersMeet s t → (gap = "" ↔ gap' = "")) →
      (Lexer.ofText (s ++ gap ++ t)).tokens.map Token.spelling =
        (Lexer.ofText (s ++ gap' ++ t)).tokens.map Token.spelling := by
  refine ⟨fun s t h => Lexer.tokens_ofText_append h, ?_⟩
  intro s t gap gap' hgap hgap' hmeet
  by_cases hempty : LettersMeet s t ∧ gap = ""
  · rw [hempty.2, (hmeet hempty.1).mp hempty.2]
  · have hne (h : LettersMeet s t) : gap ≠ "" := fun hnil => hempty ⟨h, hnil⟩
    have hne' (h : LettersMeet s t) : gap' ≠ "" := mt (hmeet h).mpr (hne h)
    rw [Lexer.tokens_ofText_gap hgap hne, Lexer.tokens_ofText_gap hgap' hne', List.map_append,
      List.map_append, List.map_map, List.map_map]
    rfl

/-- A text is cut in the second of its three lines; `é` takes two bytes. A blank before `+` can be
left out, and between two words there can be other blanks. -/
theorem tokens_compose_of_lines :
    (Lexer.ofText ("é\n x" ++ "| y\nnil")).tokens =
      [⟨.illegal, "é", ⟨0, 2, 1, 1⟩⟩, ⟨.identifier, "x", ⟨4, 5, 2, 2⟩⟩, ⟨.pipe, "|", ⟨5, 6, 2, 3⟩⟩,
        ⟨.identifier, "y", ⟨7, 8, 2, 5⟩⟩, ⟨.keyword .nilWord, "nil", ⟨9, 12, 3, 1⟩⟩,
        ⟨.endOfInput, "", ⟨12, 12, 3, 4⟩⟩] ∧
    (Lexer.ofText ("a" ++ " " ++ "+ b")).tokens.map Token.spelling =
      (Lexer.ofText ("a" ++ "" ++ "+ b")).tokens.map Token.spelling ∧
    (Lexer.ofText ("a" ++ " " ++ "b")).tokens.map Token.spelling =
      (Lexer.ofText ("a" ++ "\r\n" ++ "b")).tokens.map Token.spelling := by
  have hseam : ¬LettersMeet "é\n x" "| y\nnil" := by simp [LettersMeet]
  have hseam' : ¬LettersMeet "a" "+ b" := by simp [LettersMeet]
  refine ⟨?_, ?_, ?_⟩
  · have hs : (Lexer.ofText "é\n x").tokens = [⟨.illegal, "é", ⟨0, 2, 1, 1⟩⟩,
        ⟨.identifier, "x", ⟨4, 5, 2, 2⟩⟩, ⟨.endOfInput, "", ⟨5, 5, 2, 3⟩⟩] := by
      rw [Lexer.tokens_of_ne (by decide), Lexer.tokens_of_ne (by decide),
        Lexer.tokens_of_end (by decide)]
      decide
    have ht : (Lexer.ofText "| y\nnil").tokens = [⟨.pipe, "|", ⟨0, 1, 1, 1⟩⟩,
        ⟨.identifier, "y", ⟨2, 3, 1, 3⟩⟩, ⟨.keyword .nilWord, "nil", ⟨4, 7, 2, 1⟩⟩,
        ⟨.endOfInput, "", ⟨7, 7, 2, 4⟩⟩] := by
      rw [Lexer.tokens_of_ne (by decide), Lexer.tokens_of_ne (by decide),
        Lexer.tokens_of_ne (by decide), Lexer.tokens_of_end (by decide)]
      decide
    rw [tokens_compose.1 _ _ hseam, hs, ht]
    decide
  · exact tokens_compose.2 "a" "+ b" " " "" (by simp [isBlank]) (by simp) fun h => absurd h hseam'
  · exact tokens_compose.2 "a" "b" " " "\r\n" (by simp [isBlank]) (by simp [isBlank]) fun _ => by simp

end Guardedness
