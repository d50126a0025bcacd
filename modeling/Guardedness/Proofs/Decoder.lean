import Guardedness.Decoder
import Guardedness.Proofs.Json.Text
import Mathlib.Data.List.Nodup

/-!
# What a decoder makes of JSON

A library that decodes JSON is known by what its readers make of values (`Decoder.Meaning`). The
laws are those that its documentation gives (`Decoder.Meaning.Lawful`): a text is decoded to what
its value is made into, truth values and words stand for themselves, and the members of an object
are passed in their order, where a known key has its field set, but not twice, and an unknown one
changes nothing.

**The members that matter to a record** (`Slots`). To a slot of a record only the values of its own
key matter (`Slots.atMostOnce`). So an object is decoded if and only if each slot has at most one
value and that value is decoded, and where the members stand makes no difference
(`Slots.collects_iff`).
-/

namespace Guardedness

open Json (Value)

/-! ## Values of a key -/

namespace Json

variable {α : Type} {D : Value → α → Prop} {v v' : Value} {vs vs' : List Value}
  {ms ms' : List (String × Value)} {o : Option α} {key key' : String}

/-- The values of the members with this key. -/
def valuesOf (key : String) (ms : List (String × Value)) : List Value :=
  (ms.filter (·.1 == key)).map (·.2)

theorem valuesOf_cons_self : valuesOf key ((key, v) :: ms) = v :: valuesOf key ms := by
  simp [valuesOf]

theorem valuesOf_cons_of_ne (h : key' ≠ key) :
    valuesOf key ((key', v) :: ms) = valuesOf key ms := by
  simp [valuesOf, h]

theorem valuesOf_sublist (key : String) (m : String × Value) (ms : List (String × Value)) :
    (valuesOf key ms).Sublist (valuesOf key (m :: ms)) :=
  ((List.sublist_cons_self m ms).filter _).map _

theorem valuesOf_eq_nil_of_cons {m : String × Value} (h : valuesOf key (m :: ms) = []) :
    valuesOf key ms = [] :=
  List.sublist_nil.mp (h ▸ valuesOf_sublist key m ms)

/-- There is at most one value, and `o` is what it is decoded to. -/
inductive AtMostOnce (D : Value → α → Prop) : List Value → (o : Option α) → Prop
  | absent : AtMostOnce D [] none
  | once {v : Value} {a : α} (h : D v a) : AtMostOnce D [v] (some a)

/-- There is at most one value, and it is decoded. -/
def Readable (D : Value → α → Prop) (vs : List Value) : Prop :=
  vs.length ≤ 1 ∧ ∀ v ∈ vs, ∃ a, D v a

theorem readable_iff : Readable D vs ↔ ∃ o, AtMostOnce D vs o := by
  constructor
  · rintro ⟨hlength, hdecodes⟩
    match vs with
    | [] => exact ⟨none, .absent⟩
    | [v] =>
      obtain ⟨a, ha⟩ := hdecodes v List.mem_cons_self
      exact ⟨some a, .once ha⟩
  · rintro ⟨o, h⟩
    cases h with
    | absent => exact ⟨Nat.zero_le 1, nofun⟩
    | once h =>
      refine ⟨Nat.le_refl 1, fun v hv => ?_⟩
      obtain rfl := List.mem_singleton.mp hv
      exact ⟨_, h⟩

theorem AtMostOnce.unique {o' : Option α} (h : AtMostOnce D vs o) (h' : AtMostOnce D vs o')
    (hD : ∀ v a a', D v a → D v a' → a = a') : o = o' := by
  cases h with
  | absent =>
    cases h'
    rfl
  | once h =>
    cases h' with
    | once h' => rw [hD _ _ _ h h']

theorem AtMostOnce.perm (h : AtMostOnce D vs o) (hvs : vs.Perm vs') : AtMostOnce D vs' o := by
  cases h with
  | absent =>
    rw [List.nil_perm.mp hvs]
    exact .absent
  | once h =>
    rw [← List.singleton_perm.mp hvs]
    exact .once h

theorem AtMostOnce.head (h : AtMostOnce D (v :: vs) o) (hv : ∀ a, D v a → D v' a) :
    AtMostOnce D (v' :: vs) o := by
  cases h with
  | once h => exact .once (hv _ h)

theorem Readable.sublist (h : Readable D vs') (hvs : vs.Sublist vs') : Readable D vs :=
  ⟨hvs.length_le.trans h.1, fun v hv => h.2 v (hvs.subset hv)⟩

/-- Members that differ only in their order and in members with keys that are not known. -/
inductive SameMembers (known : List String) : (ms ms' : List (String × Value)) → Prop
  | perm {ms ms' : List (String × Value)} (h : ms.Perm ms') : SameMembers known ms ms'
  | unknown {key : String} (v : Value) (ms : List (String × Value)) (h : key ∉ known) :
    SameMembers known ((key, v) :: ms) ms
  | symm {ms ms' : List (String × Value)} (h : SameMembers known ms ms') : SameMembers known ms' ms
  | trans {ms ms' ms'' : List (String × Value)} (h : SameMembers known ms ms')
    (h' : SameMembers known ms' ms'') : SameMembers known ms ms''

theorem SameMembers.perm_valuesOf {known : List String} (h : SameMembers known ms ms')
    (hkey : key ∈ known) : (valuesOf key ms).Perm (valuesOf key ms') := by
  induction h with
  | perm h => exact (h.filter _).map _
  | unknown v ms h =>
    rw [valuesOf_cons_of_ne]
    rintro rfl
    exact h hkey
  | symm _ ih => exact ih.symm
  | trans _ _ ih ih' => exact ih.trans ih'

end Json

open Json (AtMostOnce Readable SameMembers valuesOf valuesOf_cons_self valuesOf_cons_of_ne
  valuesOf_eq_nil_of_cons valuesOf_sublist readable_iff)

namespace Decoder

/-! ## Meanings -/

/-- What the readers of a decoder make of values. -/
structure Meaning (L : Decoder) where
  Decodes {α : Type} : L.Reader α → Value → (a : α) → Prop
  Takes {α : Type} : L.Reader α → Prop

variable {L : Decoder} {M : L.Meaning} {α σ : Type} {v v' : Value} {ms ms' : List (String × Value)}
  {a : α} {s t empty : σ} {key : String}

/-- With the value `v` in the field, the record `s` becomes `t`. -/
def Sets (M : L.Meaning) (f : Field L.Reader σ) (v : Value) (s t : σ) : Prop :=
  ∃ set, M.Decodes f.reader v set ∧ t = set s

/-- Passing the member takes the record `s` to `t`. -/
def Accepts (M : L.Meaning) (fields : List (Field L.Reader σ)) (s : σ) (m : String × Value)
    (t : σ) : Prop :=
  match fields.find? (·.key == m.1) with
  | some f => f.isSet s = false ∧ Sets M f m.2 s t
  | none => t = s

theorem accepts_of_find?_eq_some {fields : List (Field L.Reader σ)} {f : Field L.Reader σ}
    (h : fields.find? (·.key == key) = some f) :
    Accepts M fields s (key, v) t ↔ f.isSet s = false ∧ Sets M f v s t := by
  simp only [Accepts, h]

theorem accepts_of_find?_eq_none {fields : List (Field L.Reader σ)}
    (h : fields.find? (·.key == key) = none) : Accepts M fields s (key, v) t ↔ t = s := by
  simp only [Accepts, h]

/-- Passing the members one by one takes the record `s` to `t`. -/
inductive Collects (M : L.Meaning) (fields : List (Field L.Reader σ)) :
    (s : σ) → List (String × Value) → (t : σ) → Prop
  | nil {s : σ} : Collects M fields s [] s
  | cons {s t u : σ} {m : String × Value} {ms : List (String × Value)}
    (hm : Accepts M fields s m t) (h : Collects M fields t ms u) : Collects M fields s (m :: ms) u

/-- What a library for JSON is documented to do. -/
structure Meaning.Lawful (M : L.Meaning) : Prop where
  takes_map {α β : Type} (f : α → β) {r : L.Reader α} (h : M.Takes r) : M.Takes (L.map f r)
  takes_bool : M.Takes L.bool
  takes_word {α : Type} (words : List (String × α)) : M.Takes (L.word words)
  takes_record {σ : Type} (name : String) {fields : List (Field L.Reader σ)} (empty : σ)
    (h : ∀ f ∈ fields, M.Takes f.reader) : M.Takes (L.record name fields empty)
  decode_iff {α : Type} {r : L.Reader α} {v : Value} {text : String} {a : α} (h : M.Takes r)
    (written : v.Written text) : L.decode r text = .ok a ↔ M.Decodes r v a
  decodes_unique {α : Type} {r : L.Reader α} {v : Value} {a a' : α} (h : M.Decodes r v a)
    (h' : M.Decodes r v a') : a = a'
  decodes_map {α β : Type} {f : α → β} {r : L.Reader α} {v : Value} {b : β} (h : M.Takes r) :
    M.Decodes (L.map f r) v b ↔ ∃ a, M.Decodes r v a ∧ b = f a
  decodes_bool {v : Value} {b : Bool} : M.Decodes L.bool v b ↔ v = .bool b
  decodes_word {α : Type} {words : List (String × α)} {v : Value} {a : α} :
    M.Decodes (L.word words) v a ↔
      ∃ w, words.lookup w = some a ∧ (v = .string w ∨ v = .object [(w, .null)])
  decodes_record {σ : Type} {name : String} {fields : List (Field L.Reader σ)} {empty t : σ}
    {ms : List (String × Value)} (h : ∀ f ∈ fields, M.Takes f.reader) :
    M.Decodes (L.record name fields empty) (.object ms) t ↔ Collects M fields empty ms t

/-! ## Slots -/

/-- A place in a record for what `reader` makes of the value of a key. -/
structure Slot (L : Decoder) (σ : Type) where
  {α : Type}
  key : String
  reader : L.Reader α
  get : σ → Option α
  put : α → σ → σ

def Slot.field (slot : Slot L σ) : Field L.Reader σ :=
  ⟨slot.key, fun s => (slot.get s).isSome, L.map slot.put slot.reader⟩

/-- The slots of a record: filling one leaves the others as they are, and a record is nothing but
what is in its slots. -/
structure Slots (M : L.Meaning) (slots : List (Slot L σ)) (empty : σ) : Prop where
  takes : ∀ slot ∈ slots, M.Takes slot.reader
  nodup : (slots.map Slot.key).Nodup
  get_put : ∀ slot ∈ slots, ∀ a s, slot.get (slot.put a s) = some a
  get_put_of_ne : ∀ slot ∈ slots, ∀ slot' ∈ slots, slot'.key ≠ slot.key →
    ∀ a s, slot.get (slot'.put a s) = slot.get s
  get_empty : ∀ slot ∈ slots, slot.get empty = none
  ext : ∀ s t, (∀ slot ∈ slots, slot.get s = slot.get t) → s = t

namespace Slots

variable {slots : List (Slot L σ)} {slot : Slot L σ}

theorem takes_fields (laws : M.Lawful) (h : Slots M slots empty) :
    ∀ f ∈ slots.map Slot.field, M.Takes f.reader := by
  intro f hf
  obtain ⟨slot, hslot, rfl⟩ := List.mem_map.mp hf
  exact laws.takes_map slot.put (h.takes slot hslot)

theorem takes_record (laws : M.Lawful) (h : Slots M slots empty) (name : String) :
    M.Takes (L.record name (slots.map Slot.field) empty) :=
  laws.takes_record name empty (h.takes_fields laws)

theorem find?_key (h : Slots M slots empty) (hslot : slot ∈ slots) :
    (slots.map Slot.field).find? (·.key == slot.key) = some slot.field := by
  cases hfind : (slots.map Slot.field).find? (·.key == slot.key) with
  | none =>
    have := List.find?_eq_none.mp hfind slot.field (List.mem_map_of_mem hslot)
    simp [Slot.field] at this
  | some f =>
    obtain ⟨slot', hslot', rfl⟩ := List.mem_map.mp (List.mem_of_find?_eq_some hfind)
    have hkey : slot'.key = slot.key := by simpa [Slot.field] using List.find?_some hfind
    rw [List.inj_on_of_nodup_map h.nodup hslot' hslot hkey]

theorem accepts_known (laws : M.Lawful) (h : Slots M slots empty) (hslot : slot ∈ slots) :
    Accepts M (slots.map Slot.field) s (slot.key, v) t ↔
      slot.get s = none ∧ ∃ a, M.Decodes slot.reader v a ∧ t = slot.put a s := by
  rw [accepts_of_find?_eq_some (h.find?_key hslot)]
  simp only [Slot.field, Sets, laws.decodes_map (h.takes slot hslot), Option.isSome_eq_false_iff,
    Option.isNone_iff_eq_none]
  constructor
  · rintro ⟨hs, -, ⟨a, ha, rfl⟩, rfl⟩
    exact ⟨hs, a, ha, rfl⟩
  · rintro ⟨hs, a, ha, rfl⟩
    exact ⟨hs, _, ⟨a, ha, rfl⟩, rfl⟩

theorem accepts_unknown (hkey : ∀ slot ∈ slots, slot.key ≠ key) :
    Accepts M (slots.map Slot.field) s (key, v) t ↔ t = s := by
  refine accepts_of_find?_eq_none (List.find?_eq_none.mpr fun f hf => ?_)
  obtain ⟨slot, hslot, rfl⟩ := List.mem_map.mp hf
  simpa [Slot.field] using hkey slot hslot

/-- A member with another key leaves a slot as it is. -/
theorem get_of_ne (laws : M.Lawful) (h : Slots M slots empty) (hslot : slot ∈ slots)
    (hkey : key ≠ slot.key) (hm : Accepts M (slots.map Slot.field) s (key, v) t) :
    slot.get t = slot.get s := by
  by_cases known : ∃ slot' ∈ slots, slot'.key = key
  · obtain ⟨slot', hslot', rfl⟩ := known
    obtain ⟨-, a, -, rfl⟩ := (h.accepts_known laws hslot').mp hm
    exact h.get_put_of_ne slot hslot slot' hslot' hkey a s
  · have unknown : ∀ slot ∈ slots, slot.key ≠ key := by simpa using known
    rw [(accepts_unknown unknown).mp hm]

/-- A slot that is filled stays so, and there is no further value for it. -/
theorem kept (laws : M.Lawful) (h : Slots M slots empty) (hslot : slot ∈ slots) {a : slot.α}
    (hms : Collects M (slots.map Slot.field) s ms t) (hs : slot.get s = some a) :
    valuesOf slot.key ms = [] ∧ slot.get t = some a := by
  induction hms with
  | nil => exact ⟨rfl, hs⟩
  | @cons s t u m ms hm _ ih =>
    obtain ⟨key, v⟩ := m
    by_cases hkey : key = slot.key
    · subst hkey
      rw [((h.accepts_known laws hslot).mp hm).1] at hs
      cases hs
    · rw [valuesOf_cons_of_ne hkey]
      exact ih ((h.get_of_ne laws hslot hkey hm).trans hs)

/-- Only the values of its key matter to a slot. -/
theorem atMostOnce (laws : M.Lawful) (h : Slots M slots empty) (hslot : slot ∈ slots)
    (hms : Collects M (slots.map Slot.field) s ms t) (hs : slot.get s = none) :
    AtMostOnce (M.Decodes slot.reader) (valuesOf slot.key ms) (slot.get t) := by
  induction hms with
  | nil =>
    rw [hs]
    exact .absent
  | @cons s t u m ms hm hms ih =>
    obtain ⟨key, v⟩ := m
    by_cases hkey : key = slot.key
    · subst hkey
      obtain ⟨-, a, ha, rfl⟩ := (h.accepts_known laws hslot).mp hm
      obtain ⟨hnone, hu⟩ := h.kept laws hslot hms (h.get_put slot hslot a s)
      rw [valuesOf_cons_self, hnone, hu]
      exact .once ha
    · rw [valuesOf_cons_of_ne hkey]
      exact ih ((h.get_of_ne laws hslot hkey hm).trans hs)

/-- No filled slot has a value left, also when one is filled with the only value of its key. -/
theorem none_left_put (h : Slots M slots empty) (hslot : slot ∈ slots) {a : slot.α}
    (hnone : valuesOf slot.key ms = [])
    (filled : ∀ slot' ∈ slots, slot'.get s ≠ none → valuesOf slot'.key ms = []) :
    ∀ slot' ∈ slots, slot'.get (slot.put a s) ≠ none → valuesOf slot'.key ms = [] := by
  intro slot' hslot' hget
  by_cases hkey : slot.key = slot'.key
  · rw [← hkey, hnone]
  · rw [h.get_put_of_ne slot' hslot' slot hslot hkey] at hget
    exact filled slot' hslot' hget

/-- All members are passed if each slot has at most one value, which is decoded, and none if it is
filled before. -/
theorem exists_collects (laws : M.Lawful) (h : Slots M slots empty)
    (readable : ∀ slot ∈ slots, Readable (M.Decodes slot.reader) (valuesOf slot.key ms))
    (filled : ∀ slot ∈ slots, slot.get s ≠ none → valuesOf slot.key ms = []) :
    ∃ t, Collects M (slots.map Slot.field) s ms t := by
  induction ms generalizing s with
  | nil => exact ⟨s, .nil⟩
  | cons m ms ih =>
    obtain ⟨key, v⟩ := m
    have readable' (slot : Slot L σ) (hslot : slot ∈ slots) :=
      (readable slot hslot).sublist (valuesOf_sublist slot.key (key, v) ms)
    have filled' (slot : Slot L σ) (hslot : slot ∈ slots) (hget : slot.get s ≠ none) :
        valuesOf slot.key ms = [] :=
      valuesOf_eq_nil_of_cons (filled slot hslot hget)
    by_cases known : ∃ slot ∈ slots, slot.key = key
    · obtain ⟨slot, hslot, rfl⟩ := known
      have readable := readable slot hslot
      have filled := filled slot hslot
      rw [valuesOf_cons_self] at readable filled
      have hnone : valuesOf slot.key ms = [] := by simpa using readable.1
      obtain ⟨a, ha⟩ := readable.2 v List.mem_cons_self
      obtain ⟨t, ht⟩ := ih readable' (h.none_left_put hslot (a := a) hnone filled')
      -- A filled slot would leave no value for this member.
      have hs : slot.get s = none := by
        by_contra hs
        cases filled hs
      exact ⟨t, .cons ((h.accepts_known laws hslot).mpr ⟨hs, a, ha, rfl⟩) ht⟩
    · have unknown : ∀ slot ∈ slots, slot.key ≠ key := by simpa using known
      obtain ⟨t, ht⟩ := ih readable' filled'
      exact ⟨t, .cons ((accepts_unknown unknown).mpr rfl) ht⟩

theorem exists_collects_empty (laws : M.Lawful) (h : Slots M slots empty)
    (readable : ∀ slot ∈ slots, Readable (M.Decodes slot.reader) (valuesOf slot.key ms)) :
    ∃ t, Collects M (slots.map Slot.field) empty ms t := by
  refine h.exists_collects laws readable fun slot hslot hget => ?_
  exact absurd (h.get_empty slot hslot) hget

/-- The records that come out of members are those with the right values in all slots. -/
theorem collects_iff (laws : M.Lawful) (h : Slots M slots empty) :
    Collects M (slots.map Slot.field) empty ms t ↔ ∀ slot ∈ slots,
      AtMostOnce (M.Decodes slot.reader) (valuesOf slot.key ms) (slot.get t) := by
  constructor
  · intro hms slot hslot
    exact h.atMostOnce laws hslot hms (h.get_empty slot hslot)
  · intro hvalues
    have readable (slot : Slot L σ) (hslot : slot ∈ slots) :=
      readable_iff.mpr ⟨_, hvalues slot hslot⟩
    obtain ⟨t', ht'⟩ := h.exists_collects_empty laws readable
    have same (slot : Slot L σ) (hslot : slot ∈ slots) : slot.get t' = slot.get t :=
      (h.atMostOnce laws hslot ht' (h.get_empty slot hslot)).unique (hvalues slot hslot)
        fun _ _ _ => laws.decodes_unique
    exact h.ext t' t same ▸ ht'

theorem decodes_iff_collects (laws : M.Lawful) (h : Slots M slots empty) (name : String)
    (ofGiven : σ → α) :
    M.Decodes (L.map ofGiven (L.record name (slots.map Slot.field) empty)) (.object ms) a ↔
      ∃ t, Collects M (slots.map Slot.field) empty ms t ∧ a = ofGiven t := by
  simp only [laws.decodes_map (h.takes_record laws name),
    laws.decodes_record (h.takes_fields laws)]

/-- An object is decoded if and only if each slot has at most one value, which is decoded. -/
theorem exists_decodes_iff (laws : M.Lawful) (h : Slots M slots empty) (name : String)
    (ofGiven : σ → α) :
    (∃ a, M.Decodes (L.map ofGiven (L.record name (slots.map Slot.field) empty)) (.object ms) a) ↔
      ∀ slot ∈ slots, Readable (M.Decodes slot.reader) (valuesOf slot.key ms) := by
  simp only [h.decodes_iff_collects laws]
  constructor
  · rintro ⟨-, t, hms, -⟩ slot hslot
    exact readable_iff.mpr ⟨_, (h.collects_iff laws).mp hms slot hslot⟩
  · intro readable
    obtain ⟨t, ht⟩ := h.exists_collects_empty laws readable
    exact ⟨_, t, ht, rfl⟩

theorem decodes_iff (laws : M.Lawful) (h : Slots M slots empty) (name : String)
    (ofGiven : σ → α) :
    M.Decodes (L.map ofGiven (L.record name (slots.map Slot.field) empty)) (.object ms) a ↔
      ∃ t, (∀ slot ∈ slots,
          AtMostOnce (M.Decodes slot.reader) (valuesOf slot.key ms) (slot.get t)) ∧
        a = ofGiven t := by
  simp only [h.decodes_iff_collects laws, h.collects_iff laws]

/-- What an object is decoded to does not depend on the order of its members and on members with
unknown keys. -/
theorem decodes_congr (laws : M.Lawful) (h : Slots M slots empty) (name : String)
    (ofGiven : σ → α) (hms : SameMembers (slots.map Slot.key) ms ms') :
    M.Decodes (L.map ofGiven (L.record name (slots.map Slot.field) empty)) (.object ms) a ↔
      M.Decodes (L.map ofGiven (L.record name (slots.map Slot.field) empty)) (.object ms') a := by
  rw [h.decodes_iff laws, h.decodes_iff laws]
  have same (slot : Slot L σ) (hslot : slot ∈ slots) :=
    hms.perm_valuesOf (List.mem_map_of_mem hslot)
  constructor
  · rintro ⟨t, hvalues, rfl⟩
    exact ⟨t, fun slot hslot => (hvalues slot hslot).perm (same slot hslot), rfl⟩
  · rintro ⟨t, hvalues, rfl⟩
    exact ⟨t, fun slot hslot => (hvalues slot hslot).perm (same slot hslot).symm, rfl⟩

theorem decodes_value_congr (laws : M.Lawful) (h : Slots M slots empty) (name : String)
    (ofGiven : σ → α) (hslot : slot ∈ slots)
    (hv : ∀ b, M.Decodes slot.reader v b ↔ M.Decodes slot.reader v' b) :
    M.Decodes (L.map ofGiven (L.record name (slots.map Slot.field) empty))
        (.object ((slot.key, v) :: ms)) a ↔
      M.Decodes (L.map ofGiven (L.record name (slots.map Slot.field) empty))
        (.object ((slot.key, v') :: ms)) a := by
  rw [h.decodes_iff laws, h.decodes_iff laws]
  refine exists_congr fun t => and_congr_left fun _ => forall₂_congr fun slot' hslot' => ?_
  by_cases hkey : slot.key = slot'.key
  · obtain rfl := List.inj_on_of_nodup_map h.nodup hslot hslot' hkey
    rw [valuesOf_cons_self, valuesOf_cons_self]
    exact ⟨fun hvs => hvs.head fun b => (hv b).mp, fun hvs => hvs.head fun b => (hv b).mpr⟩
  · rw [valuesOf_cons_of_ne hkey, valuesOf_cons_of_ne hkey]

end Slots

end Decoder

end Guardedness
