import Guardedness.Proofs.Lexer.Calls

/-!
# Texts of given tokens

What a text says is its tokens without their places (`Lexer.spellings`). Each of them is spelled as
its kind asks for, and that is all there is to ask: tokens that are spelled so are the tokens of
some text (`exists_text`), which has a blank before each of them.
-/

namespace Guardedness

variable {k : Token.Kind} {w : List (Token.Kind × String)}

namespace Lexer

/-- The tokens before the end token, without their places. -/
def spellings (l : Lexer) : List (Token.Kind × String) := l.tokens.dropLast.map Token.spelling

variable {l : Lexer}

theorem spellings_of_end (h : l.next.1.kind = .endOfInput) : l.spellings = [] := by
  rw [spellings, tokens_of_end h]
  rfl

theorem spellings_of_ne (h : l.next.1.kind ≠ .endOfInput) :
    l.spellings = l.next.1.spelling :: l.next.2.spellings := by
  rw [spellings, tokens_of_ne h, List.dropLast_cons_of_ne_nil l.next.2.tokens_ne_nil]
  rfl

theorem spelled_spellings (l : Lexer) : ∀ x ∈ l.spellings, Spelled x.1 x.2.toList := by
  induction l using induct with
  | stop l h =>
    rw [spellings_of_end h]
    exact List.forall_mem_nil _
  | more l h ih =>
    rw [spellings_of_ne h]
    exact List.forall_mem_cons.mpr ⟨spelled_next h, ih⟩

theorem length_spellings_le {n : Nat} {t : Token} (h : l.tokens[n]? = some t)
    (hend : t.kind = .endOfInput) : l.spellings.length ≤ n := by
  induction l using induct generalizing n with
  | stop l hl =>
    rw [spellings_of_end hl]
    exact Nat.zero_le n
  | more l hl ih =>
    rw [tokens_of_ne hl] at h
    cases n with
    | zero =>
      obtain rfl := Option.some.inj h
      exact absurd hend hl
    | succ n =>
      rw [spellings_of_ne hl]
      exact Nat.succ_le_succ (ih h)

end Lexer

/-! ## Writing tokens down -/

/-- The literals of tokens, each after a blank. -/
def spaced (w : List (Token.Kind × String)) : List Char := w.flatMap fun x => ' ' :: x.2.toList

theorem noLetter_spaced (w : List (Token.Kind × String)) : NoLetter (spaced w) := by
  cases w with
  | nil => exact noLetter_nil
  | cons x w => exact noLetter_cons rfl

theorem spellings_spaced (hw : ∀ x ∈ w, Spelled x.1 x.2.toList) (pos : Position) :
    Lexer.spellings ⟨spaced w, pos⟩ = w := by
  induction w generalizing pos with
  | nil => exact Lexer.spellings_of_end rfl
  | cons x w ih =>
    obtain ⟨hx, hw⟩ := List.forall_mem_cons.mp hw
    have hnext : Lexer.next ⟨[' '] ++ (x.2.toList ++ spaced w), pos⟩ = _ :=
      Lexer.next_of_spelled pos (List.forall_mem_singleton.mpr rfl) hx fun _ => noLetter_spaced w
    have htext : spaced (x :: w) = [' '] ++ (x.2.toList ++ spaced w) := rfl
    rw [htext, Lexer.spellings_of_ne (by rw [hnext]; exact hx.ne_endOfInput), hnext, ih hw,
      Token.spelling, String.ofList_toList]

/-- Tokens that are spelled as their kinds ask for are those of a text. -/
theorem exists_text (hw : ∀ x ∈ w, Spelled x.1 x.2.toList) :
    ∃ s, (Lexer.ofText s).spellings = w := by
  refine ⟨String.ofList (spaced w), ?_⟩
  rw [Lexer.ofText, String.toList_ofList]
  exact spellings_spaced hw .start

/-- Every kind but that of the end token can be spelled. -/
theorem exists_spelled_of_ne (hk : k ≠ .endOfInput) : ∃ x : String, Spelled k x.toList := by
  have word (x : String) (hne : x.toList ≠ []) (hletters : x.toList.all Char.isAlpha = true) :
      Spelled (.ofWord (String.ofList x.toList)) x.toList :=
    .word hne (List.all_eq_true.mp hletters)
  cases k with
  | endOfInput => exact absurd rfl hk
  | illegal => exact ⟨"$", .illegal rfl rfl rfl⟩
  | identifier => exact ⟨"a", word "a" (by decide) rfl⟩
  | keyword r =>
    cases r with
    | nilWord => exact ⟨"nil", word "nil" (by decide) rfl⟩
    | recWord => exact ⟨"rec", word "rec" (by decide) rfl⟩
  | pipe => exact ⟨"|", .symbol rfl⟩
  | plus => exact ⟨"+", .symbol rfl⟩
  | backslash => exact ⟨"\\", .symbol rfl⟩
  | bracketOpen => exact ⟨"[", .symbol rfl⟩
  | bracketClose => exact ⟨"]", .symbol rfl⟩
  | dot => exact ⟨".", .symbol rfl⟩
  | parenOpen => exact ⟨"(", .symbol rfl⟩
  | parenClose => exact ⟨")", .symbol rfl⟩

theorem exists_spellings (ks : List Token.Kind) (hks : ∀ k ∈ ks, k ≠ .endOfInput) :
    ∃ w : List (Token.Kind × String), w.map Prod.fst = ks ∧ ∀ x ∈ w, Spelled x.1 x.2.toList := by
  induction ks with
  | nil => exact ⟨[], rfl, List.forall_mem_nil _⟩
  | cons k ks ih =>
    obtain ⟨hk, hks⟩ := List.forall_mem_cons.mp hks
    obtain ⟨x, hx⟩ := exists_spelled_of_ne hk
    obtain ⟨w, rfl, hw⟩ := ih hks
    exact ⟨(k, x) :: w, rfl, List.forall_mem_cons.mpr ⟨hx, hw⟩⟩

end Guardedness
