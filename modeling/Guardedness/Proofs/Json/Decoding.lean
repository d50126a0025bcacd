import Guardedness.Proofs.Decoder

/-!
# Decoding values

A reader goes through lexemes from left to right. Seen from outside it makes something of a value
or it does not, and what is behind the value plays no part.

**Readers** (`Reader.Takes`). A reader takes a value off the front and leaves what is behind it.
For each reader there is a relation between values and what it makes of them, and a text is
decoded to what the reader makes of its value (`Reader.Takes.decode_iff`).

**Records** (`Forms`). The members of an object are passed one by one with the fields that are set
so far. A known key has its field set, and an unknown one changes nothing.
-/

namespace Guardedness

namespace Json

open Decoder (Accepts Collects Sets)

variable {α β σ : Type} {r : Reader α} {D : Value → α → Prop} {P Q : α → Prop} {x : Read α}
  {f : Field Reader σ} {fields : List (Field Reader σ)} {v : Value} {vs : List Value}
  {m : String × Value}
  {ms : List (String × Value)} {a : α} {s t u empty : σ} {key text : String}
  {rest rest' : List Lexeme}

/-! ## Readers -/

/-- Reading gives the one result with `P` and leaves `rest`, or there is no such result. -/
inductive Yields (P : α → Prop) (rest : List Lexeme) : Read α → Prop
  | ok {a : α} (h : ∀ a', P a' ↔ a' = a) : Yields P rest (.ok (a, rest))
  | error {e : Fault} (h : ∀ a, ¬ P a) : Yields P rest (.error e)

theorem Yields.congr (h : Yields P rest x) (hPQ : ∀ a, P a ↔ Q a) : Yields Q rest x := by
  have : P = Q := by
    funext a
    exact propext (hPQ a)
  exact this ▸ h

theorem Yields.eq_ok_iff (h : Yields P rest x) : x = .ok (a, rest') ↔ P a ∧ rest' = rest := by
  cases h with
  | ok h => simp [h, eq_comm]
  | error h => simp [h]

namespace Reader

/-- The reader makes `a` of the value. -/
def Decodes (r : Reader α) (v : Value) (a : α) : Prop := r.read v.lexemes = .ok (a, [])

/-- The reader takes values off the front of lexemes, and makes of `v` what `D v` says. -/
def Takes (r : Reader α) (D : Value → α → Prop) : Prop :=
  ∀ v rest, Yields (D v) rest (r.read (v.lexemes ++ rest))

theorem Takes.decodes_iff (h : r.Takes D) : r.Decodes v a ↔ D v a := by
  have read := h v []
  rw [List.append_nil] at read
  rw [Decodes, read.eq_ok_iff, and_iff_left rfl]

/-- A reader that takes values takes those it decodes. -/
theorem Takes.self (h : r.Takes D) : r.Takes r.Decodes :=
  fun v rest => (h v rest).congr fun _ => h.decodes_iff.symm

theorem Takes.decode_iff (h : r.Takes D) (written : v.Written text) :
    decode r text = .ok a ↔ D v a := by
  have read := h v []
  rw [List.append_nil] at read
  rw [decode, lexemes_of_written written]
  dsimp only
  generalize r.read v.lexemes = x at read
  cases read with
  | ok h => simp [h, eq_comm]
  | error h => simp [h]

theorem Takes.map (h : r.Takes D) (f : α → β) :
    (r.map f).Takes fun v b => ∃ a, D v a ∧ b = f a := by
  intro v rest
  have read := h v rest
  unfold Reader.map
  dsimp only
  generalize r.read (v.lexemes ++ rest) = x at read
  cases read with
  | ok h => exact .ok (by simp [h])
  | error h => exact .error (by simp [h])

theorem takes_skip : skip.Takes fun _ _ => True := by
  intro v rest
  unfold skip
  dsimp only
  rw [skip?_lexemes]
  exact .ok (by simp)

theorem takes_bool : bool.Takes fun v b => v = .bool b := by
  intro v rest
  obtain ⟨ls, hls⟩ := v.exists_lexemes_eq
  rw [hls]
  cases v with
  | bool b =>
    cases hls
    exact .ok (by simp [eq_comm])
  | _ => exact .error (by simp)

/-- Behind a word that is a key, there is nothing but its value and the end of the object. -/
theorem read_wordObject {words : List (String × α)} (w : String) (v : Value)
    (ms : List (String × Value)) (rest : List Lexeme) :
    Yields (fun a => ofWord words w = .ok a ∧ v = .null ∧ ms = []) rest
      ((word words).read ((Value.object ((w, v) :: ms)).lexemes ++ rest)) := by
  obtain ⟨ls, hls⟩ := v.exists_lexemes_eq
  rw [Value.lexemes, hls]
  show Yields _ _ ((word words).read (.objectOpen :: .string (some w) :: .colon :: v.first ::
    (ls ++ Value.moreMembers ms ++ rest)))
  unfold word
  dsimp only
  cases ofWord words w with
  | error e => exact .error (by simp)
  | ok a =>
    cases v with
    | null =>
      cases hls
      rcases ms with - | ⟨⟨key, v⟩, ms⟩
      · exact .ok (by simp [eq_comm])
      · exact .error (by simp)
    | _ => exact .error (by simp)

theorem ofWord_eq_ok {words : List (String × α)} {w : String} :
    ofWord words w = .ok a ↔ words.lookup w = some a := by
  unfold ofWord
  cases words.lookup w <;> simp

theorem takes_word {words : List (String × α)} : (word words).Takes fun v a =>
    ∃ w, words.lookup w = some a ∧ (v = .string w ∨ v = .object [(w, .null)]) := by
  intro v rest
  simp only [← ofWord_eq_ok]
  obtain ⟨ls, hls⟩ := v.exists_lexemes_eq
  cases v with
  | string w =>
    show Yields _ rest ((ofWord words w).map (·, rest))
    cases hw : ofWord words w with
    | error e => exact .error (by simp [hw])
    | ok a => exact .ok (by simp [hw, eq_comm])
  | object ms =>
    rcases ms with - | ⟨⟨w, v⟩, ms⟩
    · exact .error (by simp)
    · refine (read_wordObject w v ms rest).congr fun a => ?_
      simp
  | _ =>
    rw [hls]
    exact .error (by simp)

end Reader

/-! ## Records -/

/-- What readers make of values. -/
def meaning : decoder.Meaning where
  Decodes := Reader.Decodes
  Takes r := Reader.Takes r (Reader.Decodes r)

theorem Reader.field_lexemes (h : f.reader.Takes f.reader.Decodes) (v : Value) (s : σ)
    (rest : List Lexeme) : Yields (Sets meaning f v s) rest (field f s (v.lexemes ++ rest)) := by
  have read := h v rest
  unfold field
  generalize f.reader.read (v.lexemes ++ rest) = x at read
  cases read with
  | @ok set h => exact .ok (by simp [Sets, meaning, h])
  | error h => exact .error (by simp [Sets, meaning, h])

/-- The fields are read from whole values. -/
def Whole (fields : List (Field Reader σ)) : Prop :=
  ∀ f ∈ fields, f.reader.Takes f.reader.Decodes

/-- Setting the fields to the items one by one takes the record `s` to `t`. -/
inductive Fills : (fields : List (Field Reader σ)) → (s : σ) → List Value → (t : σ) → Prop
  | nil {fields : List (Field Reader σ)} {s : σ} : Fills fields s [] s
  | cons {f : Field Reader σ} {fields : List (Field Reader σ)} {s t u : σ} {v : Value}
    {vs : List Value} (hv : Sets meaning f v s t) (h : Fills fields t vs u) :
    Fills (f :: fields) s (v :: vs) u

/-- The record that a value forms if no field is set before. -/
inductive Forms (fields : List (Field Reader σ)) (empty : σ) : Value → (t : σ) → Prop
  | object {ms : List (String × Value)} {t : σ} (h : Collects meaning fields empty ms t) :
    Forms fields empty (.object ms) t
  | array {vs : List Value} {t : σ} (h : Fills fields empty vs t) : Forms fields empty (.array vs) t

theorem collects_nil : Collects meaning fields s [] u ↔ u = s := by
  constructor
  · rintro ⟨⟩
    rfl
  · rintro rfl
    exact .nil

theorem collects_cons :
    Collects meaning fields s (m :: ms) u ↔
      ∃ t, Accepts meaning fields s m t ∧ Collects meaning fields t ms u := by
  constructor
  · rintro (_ | ⟨hm, h⟩)
    exact ⟨_, hm, h⟩
  · rintro ⟨t, hm, h⟩
    exact .cons hm h

theorem fills_nil : Fills fields s [] u ↔ u = s := by
  constructor
  · rintro ⟨⟩
    rfl
  · rintro rfl
    exact .nil

theorem fills_cons :
    Fills (f :: fields) s (v :: vs) u ↔ ∃ t, Sets meaning f v s t ∧ Fills fields t vs u := by
  constructor
  · rintro (_ | ⟨hv, h⟩)
    exact ⟨_, hv, h⟩
  · rintro ⟨t, hv, h⟩
    exact .cons hv h

theorem forms_object : Forms fields empty (.object ms) t ↔ Collects meaning fields empty ms t := by
  constructor
  · rintro ⟨h⟩
    exact h
  · exact .object

theorem forms_array : Forms fields empty (.array vs) t ↔ Fills fields empty vs t := by
  constructor
  · rintro (_ | ⟨h⟩)
    exact h
  · exact .array

namespace Reader

theorem member_lexemes (whole : Whole fields) (s : σ) (key : String) (v : Value)
    (rest : List Lexeme) : Yields (Accepts meaning fields s (key, v)) rest
      (member fields s key (.colon :: (v.lexemes ++ rest))) := by
  unfold member
  cases hf : fields.find? (·.key == key) with
  | none =>
    refine (takes_skip.map (fun _ => s) v rest).congr fun t => ?_
    rw [Decoder.accepts_of_find?_eq_none (L := decoder) hf]
    simp
  | some f =>
    have read := field_lexemes (whole f (List.mem_of_find?_eq_some hf)) v s rest
    suffices Yields (fun t => f.isSet s = false ∧ Sets meaning f v s t) rest
        (if f.isSet s then .error (.repeatedKey key) else field f s (v.lexemes ++ rest)) from
      this.congr fun t => (Decoder.accepts_of_find?_eq_some (L := decoder) hf).symm
    cases f.isSet s with
    | true => exact .error (by simp)
    | false => exact read.congr (by simp)

theorem members_eq {ls : List Lexeme} : members fields s (.string (some key) :: ls) =
    match member fields s key ls with
    | .ok (s, .objectClose :: rest) => .ok (s, rest)
    | .ok (s, .comma :: rest) => members fields s rest
    | .ok _ => .error .malformed
    | .error e => .error e := by
  rw [members]
  split <;> simp_all

/-- The members of an object are passed in their order, with the record that the members before have
left. -/
theorem members_lexemes (whole : Whole fields) (s : σ) (key : String) (v : Value)
    (ms : List (String × Value)) (rest : List Lexeme) :
    Yields (Collects meaning fields s ((key, v) :: ms)) rest
      (members fields s
        (.string (some key) :: .colon :: (v.lexemes ++ (Value.moreMembers ms ++ rest)))) := by
  induction ms generalizing s key v with
  | nil =>
    have first := member_lexemes whole s key v (Value.moreMembers [] ++ rest)
    rw [members_eq]
    generalize member fields s key _ = x at first
    cases first with
    | ok h => exact .ok (by simp [collects_cons, collects_nil, h])
    | error h => exact .error (by simp [collects_cons, h])
  | cons m ms ih =>
    obtain ⟨key', v'⟩ := m
    have first := member_lexemes whole s key v (Value.moreMembers ((key', v') :: ms) ++ rest)
    rw [members_eq]
    generalize member fields s key _ = x at first
    cases first with
    | @ok t h =>
      rw [Value.moreMembers, List.cons_append, List.cons_append, List.cons_append,
        List.append_assoc]
      refine (ih t key' v').congr fun u => ?_
      simp [collects_cons, h]
    | error h => exact .error (by simp [collects_cons, h])

/-- The lexemes of items up to the end of their array, the first of them without a comma. -/
def itemLexemes : (first : Bool) → List Value → List Lexeme
  | true, v :: vs => v.lexemes ++ Value.moreItems vs
  | _, vs => Value.moreItems vs

theorem itemStart?_lexemes (first : Bool) (v : Value) (vs : List Value) (rest : List Lexeme) :
    itemStart? first (itemLexemes first (v :: vs) ++ rest) =
      some (v.lexemes ++ (Value.moreItems vs ++ rest)) := by
  cases first with
  | true =>
    rw [itemLexemes, List.append_assoc]
    rfl
  | false =>
    rw [itemLexemes, Value.moreItems, List.cons_append, List.append_assoc]
    · rfl
    · simp

theorem exists_itemLexemes_eq (first : Bool) (v : Value) (vs : List Value) :
    ∃ l ls, itemLexemes first (v :: vs) = l :: ls ∧ l ≠ .arrayClose := by
  cases first with
  | true =>
    obtain ⟨ls, hls⟩ := v.exists_lexemes_eq
    rw [itemLexemes, hls]
    refine ⟨_, _, rfl, ?_⟩
    cases v <;> simp [Value.first]
  | false =>
    rw [itemLexemes, Value.moreItems]
    · exact ⟨_, _, rfl, by simp⟩
    · simp

theorem items_end (first : Bool) (s : σ) (fields : List (Field Reader σ)) (rest : List Lexeme) :
    items first s fields (itemLexemes first [] ++ rest) = .ok (s, rest) := by
  cases first <;> cases fields <;> rfl

theorem items_nil (first : Bool) (s : σ) (v : Value) (vs : List Value) (rest : List Lexeme) :
    items first s [] (itemLexemes first (v :: vs) ++ rest) = .error .malformed := by
  obtain ⟨l, ls, hls, hl⟩ := exists_itemLexemes_eq first v vs
  rw [hls, List.cons_append, items.eq_def]
  split <;> simp_all

theorem items_cons (first : Bool) (s : σ) (f : Field Reader σ) (fields : List (Field Reader σ))
    (v : Value) (vs : List Value) (rest : List Lexeme) :
    items first s (f :: fields) (itemLexemes first (v :: vs) ++ rest) =
      match field f s (v.lexemes ++ (Value.moreItems vs ++ rest)) with
      | .ok (s, rest) => items false s fields rest
      | .error e => .error e := by
  obtain ⟨l, ls, hls, hl⟩ := exists_itemLexemes_eq first v vs
  have start := itemStart?_lexemes first v vs rest
  rw [hls, List.cons_append] at start ⊢
  rw [items.eq_def]
  split
  · simp_all
  · contradiction
  · next heq _ =>
    obtain ⟨rfl, rfl⟩ := List.cons.inj heq
    cases hread : field f s (v.lexemes ++ (Value.moreItems vs ++ rest)) <;> simp [start, hread]

theorem items_lexemes (whole : Whole fields) (first : Bool) (s : σ) (vs : List Value)
    (rest : List Lexeme) :
    Yields (Fills fields s vs) rest (items first s fields (itemLexemes first vs ++ rest)) := by
  induction fields generalizing first s vs with
  | nil =>
    cases vs with
    | nil =>
      rw [items_end]
      exact .ok fun u => fills_nil
    | cons v vs =>
      rw [items_nil]
      exact .error nofun
  | cons f fields ih =>
    cases vs with
    | nil =>
      rw [items_end]
      exact .ok fun u => fills_nil
    | cons v vs =>
      have read := field_lexemes (whole f List.mem_cons_self) v s (Value.moreItems vs ++ rest)
      rw [items_cons]
      generalize field f s _ = x at read
      cases read with
      | @ok t h =>
        have more := ih (fun f hf => whole f (List.mem_cons_of_mem _ hf)) false t vs
        exact more.congr (by simp [fills_cons, h])
      | error h => exact .error (by simp [fills_cons, h])

/-- A record takes the values that form one. -/
theorem takes_record (whole : Whole fields) (name : String) (empty : σ) :
    (record name fields empty).Takes (Forms fields empty) := by
  intro v rest
  obtain ⟨ls, hls⟩ := v.exists_lexemes_eq
  cases v with
  | object ms =>
    rcases ms with - | ⟨⟨key, v⟩, ms⟩
    · exact .ok fun u => forms_object.trans collects_nil
    · rw [Value.lexemes, List.cons_append, List.cons_append, List.cons_append, List.append_assoc]
      exact (members_lexemes whole empty key v ms rest).congr fun u => forms_object.symm
  | array vs =>
    have items := (items_lexemes whole true empty vs rest).congr fun u => forms_array.symm
    cases vs with
    | nil => exact items
    | cons v vs =>
      rw [Value.lexemes]
      exact items
  | _ =>
    rw [hls]
    exact .error nofun

end Reader

/-- Decoding JSON goes by the laws. -/
theorem meaning_lawful : meaning.Lawful where
  takes_map f _ h := (Reader.Takes.map h f).self
  takes_bool := Reader.Takes.self Reader.takes_bool
  takes_word _ := Reader.Takes.self Reader.takes_word
  takes_record name _ empty whole := (Reader.takes_record whole name empty).self
  decode_iff h written := h.decode_iff written
  decodes_unique h h' := (Prod.mk.inj (Except.ok.inj (h.symm.trans h'))).1
  decodes_map h := (Reader.Takes.map h _).decodes_iff
  decodes_bool := Reader.Takes.decodes_iff Reader.takes_bool
  decodes_word := Reader.Takes.decodes_iff Reader.takes_word
  decodes_record whole := (Reader.takes_record whole _ _).decodes_iff.trans forms_object

end Json

end Guardedness
