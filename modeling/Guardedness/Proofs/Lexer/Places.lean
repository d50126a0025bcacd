import Guardedness.Proofs.Lexer.Calls

/-!
# Where a lexer stands

A lexer counts bytes, lines and columns as it goes on. Whatever it has read so far, these counts are
those of the text before it.

**A place** (`Position.Behind`) is right behind some characters when it counts their bytes, their
line feeds, and the characters since the last line feed. Moving over more characters keeps it so
(`Position.Behind.after`).

**A lexer** (`Lexer.StandsBehind`) splits its text into what is read and what is left, with its
place between the two. A call moves it over a gap and a token, and the token stands where the gap
ends (`Lexer.StandsBehind.next`).
-/

namespace Guardedness

/-- The place is right behind the characters `before`. -/
structure Position.Behind (p : Position) (before : List Char) : Prop where
  offset : p.offset = (String.ofList before).utf8ByteSize
  line : p.line = 1 + before.count '\n'
  column : p.column = 1 + (before.reverse.takeWhile (· ≠ '\n')).length

/-- The lexer stands in the text `s` right behind the characters `before`. -/
structure Lexer.StandsBehind (l : Lexer) (s : String) (before : List Char) : Prop where
  text : s.toList = before ++ l.rest
  behind : l.position.Behind before

/-- The token stands in the text `s` right behind the characters `before`. -/
structure Token.StandsBehind (t : Token) (s : String) (before : List Char) : Prop where
  text : ∃ after, s.toList = before ++ (t.literal.toList ++ after)
  behind : Position.Behind ⟨t.span.start, t.span.line, t.span.column⟩ before
  stop : t.span.stop = t.span.start + t.literal.utf8ByteSize

variable {s : String} {before cs : List Char}

/-! ## Places -/

namespace Position

variable {p : Position}

theorem behind_start : start.Behind [] := ⟨rfl, rfl, rfl⟩

theorem Behind.next (h : p.Behind before) (c : Char) : (p.next c).Behind (before ++ [c]) := by
  have hoffset : p.offset + c.utf8Size = (String.ofList (before ++ [c])).utf8ByteSize := by
    rw [h.offset, String.ofList_append, String.utf8ByteSize_append]
    simp
  unfold Position.next
  split
  · next hc =>
    subst hc
    refine ⟨hoffset, ?_, ?_⟩
    · simp [h.line, Nat.add_assoc]
    · simp
  · next hc =>
    refine ⟨hoffset, ?_, ?_⟩
    · simp [h.line, hc]
    · simp [h.column, hc, Nat.add_comm]

theorem Behind.after (h : p.Behind before) (cs : List Char) :
    (p.after cs).Behind (before ++ cs) := by
  induction cs generalizing p before with
  | nil => rwa [List.append_nil]
  | cons c cs ih =>
    rw [after_cons, List.append_cons]
    exact ih (h.next c)

/-- The place behind more characters is that many bytes further on. -/
theorem Behind.offset_append {q : Position} (hp : p.Behind before) (hq : q.Behind (before ++ cs)) :
    q.offset = p.offset + (String.ofList cs).utf8ByteSize := by
  rw [hp.offset, hq.offset, String.ofList_append, String.utf8ByteSize_append]

end Position

/-! ## States of a lexer -/

theorem isValid_of_toList (h : s.toList = before ++ cs) :
    String.Pos.Raw.IsValid s ⟨(String.ofList before).utf8ByteSize⟩ := by
  refine String.Pos.Raw.isValid_iff_exists_append.mpr ⟨String.ofList before, String.ofList cs, ?_, rfl⟩
  rw [← String.ofList_append, ← h, String.ofList_toList]

theorem Token.StandsBehind.extract_bytes {t : Token} (h : t.StandsBehind s before) :
    s.toUTF8.extract t.span.start t.span.stop = t.literal.toUTF8 := by
  obtain ⟨after, htext⟩ := h.text
  have hs : s = String.ofList before ++ (t.literal ++ String.ofList after) := by
    rw [← String.ofList_toList (s := s), htext, String.ofList_append, String.ofList_append,
      String.ofList_toList]
  have hstart : t.span.start = (String.ofList before).toUTF8.size + 0 := h.behind.offset
  have hstop : t.span.stop = (String.ofList before).toUTF8.size + t.literal.toUTF8.size := by
    rw [h.stop, hstart]
    rfl
  rw [hstart, hstop, hs]
  simp only [String.toUTF8_eq_toByteArray, String.toByteArray_append]
  rw [ByteArray.extract_append_size_add, ByteArray.extract_append_size_left,
    ByteArray.extract_zero_size]

namespace Lexer

variable {l : Lexer} {gap : List Char}

theorem standsBehind_ofText (s : String) : (ofText s).StandsBehind s [] :=
  ⟨rfl, Position.behind_start⟩

/-- A call moves a lexer over the gap and the token that it reads. -/
theorem StandsBehind.next (h : l.StandsBehind s before) (hcall : l.Call gap) :
    l.next.1.StandsBehind s (before ++ gap) ∧
      l.next.2.StandsBehind s (before ++ gap ++ l.next.1.literal.toList) := by
  have hgap := h.behind.after gap
  have hliteral := hgap.after l.next.1.literal.toList
  rw [← hcall.position] at hliteral
  have htext : s.toList = before ++ gap ++ (l.next.1.literal.toList ++ l.next.2.rest) := by
    rw [h.text, hcall.rest, List.append_assoc]
  refine ⟨⟨⟨_, htext⟩, ?_, ?_⟩, ⟨?_, hliteral⟩⟩
  · rw [hcall.span]
    exact hgap
  · have hoffset := hgap.offset_append hliteral
    rw [String.ofList_toList] at hoffset
    rw [hcall.span]
    exact hoffset
  · rw [htext]
    exact (List.append_assoc ..).symm

theorem StandsBehind.afterCalls (h : l.StandsBehind s before) (n : Nat) :
    ∃ before, (l.afterCalls n).StandsBehind s before := by
  induction n with
  | zero => exact ⟨before, h⟩
  | succ n ih =>
    obtain ⟨before, h⟩ := ih
    obtain ⟨gap, hcall⟩ := exists_call (l.afterCalls n)
    rw [afterCalls_succ]
    exact ⟨_, (h.next hcall).2⟩

theorem StandsBehind.isValid (h : l.StandsBehind s before) :
    String.Pos.Raw.IsValid s ⟨l.position.offset⟩ := by
  rw [h.behind.offset]
  exact isValid_of_toList h.text

theorem StandsBehind.utf8ByteSize_eq (h : l.StandsBehind s before) :
    s.utf8ByteSize = l.position.offset + (String.ofList l.rest).utf8ByteSize := by
  rw [h.behind.offset, ← String.utf8ByteSize_append, ← String.ofList_append, ← h.text,
    String.ofList_toList]

/-! ## From call to call -/

/-- The token of a call stands between the places before and after it. -/
theorem StandsBehind.span_between (h : l.StandsBehind s before) (hcall : l.Call gap) :
    l.next.1.span.start = l.position.offset + (String.ofList gap).utf8ByteSize ∧
      l.next.2.position.offset = l.next.1.span.stop := by
  refine ⟨h.behind.offset_append (h.next hcall).1.behind, ?_⟩
  rw [hcall.span]
  rfl

/-- A lexer that has been called stands where the token of its last call ends. -/
theorem offset_afterCalls_succ (s : String) (n : Nat) :
    ((ofText s).afterCalls (n + 1)).position.offset = ((ofText s).token n).span.stop := by
  obtain ⟨before, h⟩ := (standsBehind_ofText s).afterCalls n
  obtain ⟨gap, hcall⟩ := exists_call ((ofText s).afterCalls n)
  rw [afterCalls_succ]
  exact (h.span_between hcall).2

theorem Call.utf8ByteSize_pos (hcall : l.Call gap) (hkind : l.next.1.kind ≠ .endOfInput) :
    0 < l.next.1.literal.utf8ByteSize := by
  refine Nat.pos_of_ne_zero ?_
  intro hzero
  exact hkind (hcall.literal.mp (String.utf8ByteSize_eq_zero_iff.mp hzero))

/-- At the end token nothing is left but the blanks before it. -/
theorem StandsBehind.start_of_end (h : l.StandsBehind s before) (hcall : l.Call gap)
    (hend : l.next.1.kind = .endOfInput) : l.next.1.span.start = s.utf8ByteSize := by
  rw [(h.span_between hcall).1, h.utf8ByteSize_eq, hcall.rest_eq_gap hend]

theorem StandsBehind.offset_lt (h : l.StandsBehind s before)
    (hl : l.position.offset < s.utf8ByteSize) :
    l.position.offset < l.next.2.position.offset := by
  obtain ⟨gap, hcall⟩ := exists_call l
  obtain ⟨hstart, hstop⟩ := h.span_between hcall
  have htoken := (h.next hcall).1.stop
  by_cases hend : l.next.1.kind = .endOfInput
  · have := h.start_of_end hcall hend
    omega
  · have := hcall.utf8ByteSize_pos hend
    omega

theorem StandsBehind.offset_le (h : l.StandsBehind s before) (n : Nat) :
    l.position.offset ≤ (l.token n).span.start := by
  induction n generalizing l before with
  | zero =>
    obtain ⟨gap, hcall⟩ := exists_call l
    exact (h.span_between hcall).1 ▸ Nat.le_add_right _ _
  | succ n ih =>
    obtain ⟨gap, hcall⟩ := exists_call l
    obtain ⟨hstart, hstop⟩ := h.span_between hcall
    obtain ⟨htoken, hnext⟩ := h.next hcall
    have hle : l.next.2.position.offset ≤ (l.token (n + 1)).span.start := ih hnext
    have := htoken.stop
    omega

/-- A later token begins where an earlier one has ended, or behind that. -/
theorem span_disjoint (s : String) {m n : Nat} (h : n < m) :
    ((ofText s).token n).span.stop ≤ ((ofText s).token m).span.start := by
  obtain ⟨before, hafter⟩ := (standsBehind_ofText s).afterCalls (n + 1)
  obtain ⟨k, rfl⟩ := Nat.exists_eq_add_of_le h
  rw [token_add, ← offset_afterCalls_succ]
  exact hafter.offset_le k

theorem span_nonempty {s : String} {n : Nat} (h : ((ofText s).token n).kind ≠ .endOfInput) :
    ((ofText s).token n).span.start < ((ofText s).token n).span.stop := by
  obtain ⟨before, hafter⟩ := (standsBehind_ofText s).afterCalls n
  obtain ⟨gap, hcall⟩ := exists_call ((ofText s).afterCalls n)
  have hstop := (hafter.next hcall).1.stop
  have hpos := hcall.utf8ByteSize_pos h
  rw [token]
  omega

/-- No token but the end token is read twice. -/
theorem token_ne_of_lt {s : String} {m n : Nat} (hmn : m < n)
    (h : ((ofText s).token m).kind ≠ .endOfInput) : (ofText s).token m ≠ (ofText s).token n := by
  intro heq
  have hdisjoint := span_disjoint s hmn
  have hnonempty := span_nonempty h
  rw [← heq] at hdisjoint
  omega

/-- In the text `s` a lexer that has been called `n` times and the token of its next call are where
they should be. -/
structure InPlace (s : String) (n : Nat) : Prop where
  counts : ∃ before, ((ofText s).afterCalls n).StandsBehind s before ∧
    ∃ gap, (∀ c ∈ gap, isBlank c = true) ∧ ((ofText s).token n).StandsBehind s (before ++ gap)
  isValid : String.Pos.Raw.IsValid s ⟨((ofText s).afterCalls n).position.offset⟩
  isValid_start : String.Pos.Raw.IsValid s ⟨((ofText s).token n).span.start⟩
  bytes : s.toUTF8.extract ((ofText s).token n).span.start ((ofText s).token n).span.stop =
    ((ofText s).token n).literal.toUTF8
  disjoint : ∀ m, n < m → ((ofText s).token n).span.stop ≤ ((ofText s).token m).span.start
  moves : ((ofText s).afterCalls n).position.offset < s.utf8ByteSize →
    ((ofText s).afterCalls n).position.offset < ((ofText s).afterCalls (n + 1)).position.offset
  nonempty : ((ofText s).token n).kind ≠ .endOfInput →
    ((ofText s).token n).span.start < ((ofText s).token n).span.stop
  /-- The end token is at the end of the text, and is the token of every later call. -/
  stays : ((ofText s).token n).kind = .endOfInput →
    ((ofText s).token n).span.start = s.utf8ByteSize ∧
      ∀ m, n ≤ m → (ofText s).token m = (ofText s).token n

/-- **After any number of calls a lexer stands between two characters of its text, and counts the
lines before that and the columns since the last line feed. The token of the next call stands there
too, after blanks, and is cut out of the bytes of the text by its span. Every later token begins
where this one has ended. A call moves the lexer on until the end token, which all calls give from
then on.** -/
theorem calls_in_place (s : String) (n : Nat) : InPlace s n := by
  obtain ⟨before, h⟩ := (standsBehind_ofText s).afterCalls n
  obtain ⟨gap, hcall⟩ := exists_call ((ofText s).afterCalls n)
  obtain ⟨htoken, hnext⟩ := h.next hcall
  refine ⟨⟨before, h, gap, hcall.blank, htoken⟩, h.isValid, ?_, htoken.extract_bytes,
    fun m hm => span_disjoint s hm, ?_, span_nonempty, ?_⟩
  · obtain ⟨after, htext⟩ := htoken.text
    have hvalid := isValid_of_toList htext
    rwa [← htoken.behind.offset] at hvalid
  · rw [afterCalls_succ]
    exact h.offset_lt
  · intro hend
    refine ⟨h.start_of_end hcall hend, ?_⟩
    intro m hm
    obtain ⟨k, rfl⟩ := Nat.exists_eq_add_of_le hm
    rw [token_add]
    exact token_of_end hend k

/-- In a text of two lines the second token takes three bytes. The third call gives the end token,
and so does the sixth. -/
theorem calls_in_place_of_arrow :
    ((ofText "a\n →").token 0).span.stop ≤ ((ofText "a\n →").token 1).span.start ∧
      ((ofText "a\n →").token 1).span.start < ((ofText "a\n →").token 1).span.stop ∧
      ((ofText "a\n →").afterCalls 1).position.offset <
        ((ofText "a\n →").afterCalls 2).position.offset ∧
      ((ofText "a\n →").token 2).span.start = "a\n →".utf8ByteSize ∧
      (ofText "a\n →").token 5 = (ofText "a\n →").token 2 := by
  have hsecond : InPlace "a\n →" 1 := calls_in_place "a\n →" 1
  obtain ⟨hstart, hstays⟩ := (calls_in_place "a\n →" 2).stays (by decide)
  refine ⟨?_, hsecond.nonempty (by decide), hsecond.moves (by decide), hstart, ?_⟩
  · exact (calls_in_place "a\n →" 0).disjoint 1 (by decide)
  · exact hstays 5 (by decide)

end Lexer

end Guardedness
