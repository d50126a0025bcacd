import Guardedness.Proofs.Json.Decoding
import Guardedness.Settings.Decoding

/-!
# What a settings text says

Settings are decoded in one pass over a text, in whatever order it has its members. What comes out
is told by the values of the known keys alone: each record of settings has a slot for each of its
keys (`slots`), and what has no value keeps its default.

Two objects say the same if they differ in the order of their members and in members with unknown
keys, at the top or in a section (`Settings.Same`). Blanks and escapes make no difference once a
text is split into lexemes.
-/

namespace Guardedness

open Decoder (Slot Slots)
open Json (Value AtMostOnce Readable SameMembers valuesOf)

variable {L : Decoder} {M : L.Meaning} {ms ms' : List (String × Value)} {v : Value}

namespace Strategy

theorem lookup_word {w : String} {s : Strategy} :
    (all.map fun s => (s.word, s)).lookup w = some s ↔ w = s.word := by
  constructor
  · intro h
    simp only [all, List.map_cons, List.map_nil, List.lookup_cons, List.lookup_nil] at h
    split at h
    · simp_all
    · split at h
      · simp_all
      · split at h <;> simp_all
  · rintro rfl
    cases s <;> rfl

/-- The word of a strategy stands alone, or as the key of an object that holds nothing else. -/
theorem decodes_iff (laws : M.Lawful) {s : Strategy} :
    M.Decodes (reader L) v s ↔ v = .string s.word ∨ v = .object [(s.word, .null)] := by
  rw [reader, laws.decodes_word]
  simp [lookup_word]

end Strategy

namespace ReadSettings

/-- The slots of these settings. -/
def slots (L : Decoder) : List (Slot L Given) :=
  [⟨"require_end_of_input", L.bool, (·.toEnd), fun b g => { g with toEnd := some b }⟩]

theorem slots_laws (laws : M.Lawful) : Slots M (slots L) ({} : Given) where
  takes := by
    simp only [slots, List.forall_mem_singleton]
    exact laws.takes_bool
  nodup := by simp [slots]
  get_put := by simp [slots]
  get_put_of_ne := by simp [slots]
  get_empty := by simp [slots]
  ext := by
    rintro ⟨toEnd⟩ ⟨toEnd'⟩ h
    simpa [slots] using h

theorem takes (laws : M.Lawful) : M.Takes (reader L) :=
  laws.takes_map ofGiven (Slots.takes_record laws (slots_laws laws) _)

theorem decodes_iff (laws : M.Lawful) {s : ReadSettings} :
    M.Decodes (reader L) (.object ms) s ↔ ∃ toEnd,
      AtMostOnce (M.Decodes L.bool) (valuesOf "require_end_of_input" ms) toEnd ∧
        s = ⟨toEnd.getD false⟩ := by
  refine (Slots.decodes_iff laws (slots_laws laws) _ ofGiven).trans ?_
  simp only [slots, List.forall_mem_singleton]
  constructor
  · rintro ⟨g, h, rfl⟩
    exact ⟨_, h, rfl⟩
  · rintro ⟨toEnd, h, rfl⟩
    exact ⟨⟨toEnd⟩, h, rfl⟩

theorem exists_decodes_iff (laws : M.Lawful) : (∃ s, M.Decodes (reader L) (.object ms) s) ↔
    Readable (M.Decodes L.bool) (valuesOf "require_end_of_input" ms) := by
  refine (Slots.exists_decodes_iff laws (slots_laws laws) _ ofGiven).trans ?_
  simp only [slots, List.forall_mem_singleton]

theorem decodes_congr (laws : M.Lawful) {s : ReadSettings}
    (h : SameMembers ["require_end_of_input"] ms ms') :
    M.Decodes (reader L) (.object ms) s ↔ M.Decodes (reader L) (.object ms') s :=
  Slots.decodes_congr laws (slots_laws laws) _ ofGiven h

end ReadSettings

namespace CheckSettings

def slots (L : Decoder) : List (Slot L Given) :=
  [⟨"evaluation", Strategy.reader L, (·.strategy), fun s g => { g with strategy := some s }⟩,
    ⟨"short_circuit", L.bool, (·.hasty), fun b g => { g with hasty := some b }⟩]

theorem slots_laws (laws : M.Lawful) : Slots M (slots L) ({} : Given) where
  takes := by
    simp only [slots, List.forall_mem_cons]
    exact ⟨laws.takes_word _, laws.takes_bool, nofun⟩
  nodup := by simp [slots]
  get_put := by simp [slots]
  get_put_of_ne := by simp [slots]
  get_empty := by simp [slots]
  ext := by
    rintro ⟨strategy, hasty⟩ ⟨strategy', hasty'⟩ h
    simpa [slots] using h

theorem takes (laws : M.Lawful) : M.Takes (reader L) :=
  laws.takes_map ofGiven (Slots.takes_record laws (slots_laws laws) _)

theorem decodes_iff (laws : M.Lawful) {s : CheckSettings} :
    M.Decodes (reader L) (.object ms) s ↔ ∃ strategy hasty,
      AtMostOnce (M.Decodes (Strategy.reader L)) (valuesOf "evaluation" ms) strategy ∧
        AtMostOnce (M.Decodes L.bool) (valuesOf "short_circuit" ms) hasty ∧
        s = ⟨strategy.getD .tasks, hasty.getD false⟩ := by
  refine (Slots.decodes_iff laws (slots_laws laws) _ ofGiven).trans ?_
  simp only [slots, List.forall_mem_cons]
  constructor
  · rintro ⟨g, ⟨hstrategy, hhasty, -⟩, rfl⟩
    exact ⟨_, _, hstrategy, hhasty, rfl⟩
  · rintro ⟨strategy, hasty, hstrategy, hhasty, rfl⟩
    exact ⟨⟨strategy, hasty⟩, ⟨hstrategy, hhasty, nofun⟩, rfl⟩

theorem exists_decodes_iff (laws : M.Lawful) : (∃ s, M.Decodes (reader L) (.object ms) s) ↔
    Readable (M.Decodes (Strategy.reader L)) (valuesOf "evaluation" ms) ∧
      Readable (M.Decodes L.bool) (valuesOf "short_circuit" ms) := by
  refine (Slots.exists_decodes_iff laws (slots_laws laws) _ ofGiven).trans ?_
  simp [slots]

theorem decodes_congr (laws : M.Lawful) {s : CheckSettings}
    (h : SameMembers ["evaluation", "short_circuit"] ms ms') :
    M.Decodes (reader L) (.object ms) s ↔ M.Decodes (reader L) (.object ms') s :=
  Slots.decodes_congr laws (slots_laws laws) _ ofGiven h

end CheckSettings

namespace Settings

def slots (L : Decoder) : List (Slot L Given) :=
  [⟨"parser", ReadSettings.reader L, (·.read), fun s g => { g with read := some s }⟩,
    ⟨"checker", CheckSettings.reader L, (·.check), fun s g => { g with check := some s }⟩]

theorem slots_laws (laws : M.Lawful) : Slots M (slots L) ({} : Given) where
  takes := by
    simp only [slots, List.forall_mem_cons]
    exact ⟨ReadSettings.takes laws, CheckSettings.takes laws, nofun⟩
  nodup := by simp [slots]
  get_put := by simp [slots]
  get_put_of_ne := by simp [slots]
  get_empty := by simp [slots]
  ext := by
    rintro ⟨read, check⟩ ⟨read', check'⟩ h
    simpa [slots] using h

theorem takes (laws : M.Lawful) : M.Takes (reader L) :=
  laws.takes_map ofGiven (Slots.takes_record laws (slots_laws laws) _)

theorem decodes_iff (laws : M.Lawful) {s : Settings} :
    M.Decodes (reader L) (.object ms) s ↔ ∃ read check,
      AtMostOnce (M.Decodes (ReadSettings.reader L)) (valuesOf "parser" ms) read ∧
        AtMostOnce (M.Decodes (CheckSettings.reader L)) (valuesOf "checker" ms) check ∧
        s = ⟨read.getD {}, check.getD {}⟩ := by
  refine (Slots.decodes_iff laws (slots_laws laws) _ ofGiven).trans ?_
  simp only [slots, List.forall_mem_cons]
  constructor
  · rintro ⟨g, ⟨hread, hcheck, -⟩, rfl⟩
    exact ⟨_, _, hread, hcheck, rfl⟩
  · rintro ⟨read, check, hread, hcheck, rfl⟩
    exact ⟨⟨read, check⟩, ⟨hread, hcheck, nofun⟩, rfl⟩

theorem exists_decodes_iff (laws : M.Lawful) : (∃ s, M.Decodes (reader L) (.object ms) s) ↔
    Readable (M.Decodes (ReadSettings.reader L)) (valuesOf "parser" ms) ∧
      Readable (M.Decodes (CheckSettings.reader L)) (valuesOf "checker" ms) := by
  refine (Slots.exists_decodes_iff laws (slots_laws laws) _ ofGiven).trans ?_
  simp [slots]

/-- Members that say the same: they differ in their order and in members with unknown keys, and
their sections differ in the same way. -/
inductive Same : (ms ms' : List (String × Value)) → Prop
  | members {ms ms' : List (String × Value)} (h : SameMembers ["parser", "checker"] ms ms') :
    Same ms ms'
  | read {section₁ section₂ : List (String × Value)} (ms : List (String × Value))
    (h : SameMembers ["require_end_of_input"] section₁ section₂) :
    Same (("parser", .object section₁) :: ms) (("parser", .object section₂) :: ms)
  | check {section₁ section₂ : List (String × Value)} (ms : List (String × Value))
    (h : SameMembers ["evaluation", "short_circuit"] section₁ section₂) :
    Same (("checker", .object section₁) :: ms) (("checker", .object section₂) :: ms)
  | symm {ms ms' : List (String × Value)} (h : Same ms ms') : Same ms' ms
  | trans {ms ms' ms'' : List (String × Value)} (h : Same ms ms') (h' : Same ms' ms'') :
    Same ms ms''

theorem Same.decodes_iff (laws : M.Lawful) {s : Settings} (h : Same ms ms') :
    M.Decodes (reader L) (.object ms) s ↔ M.Decodes (reader L) (.object ms') s := by
  induction h with
  | members h => exact Slots.decodes_congr laws (slots_laws laws) _ ofGiven h
  | read ms h =>
    exact Slots.decodes_value_congr laws (slots_laws laws) _ ofGiven List.mem_cons_self
      fun _ => ReadSettings.decodes_congr laws h
  | check ms h =>
    exact Slots.decodes_value_congr laws (slots_laws laws) _ ofGiven
      (List.mem_cons_of_mem _ List.mem_cons_self) fun _ => CheckSettings.decodes_congr laws h
  | symm _ ih => exact ih.symm
  | trans _ _ ih ih' => exact ih.trans ih'

/-- **A text that holds an object is decoded if and only if each known key has at most one value, at
the top and in the sections, and that value is decoded at its own type. A setting takes that value
if its key has one, and its default if not. So the order of the members, blanks, escapes and members
with unknown keys make no difference. It is so with any decoder that goes by the laws, as the one
for JSON does.** -/
theorem decoded_by_known_keys :
    Json.meaning.Lawful ∧ ∀ (L : Decoder) (M : L.Meaning), M.Lawful →
      (∀ ms text, (Value.object ms).Written text →
        ((∃ s, ofText L text = .ok s) ↔
          Readable (M.Decodes (ReadSettings.reader L)) (valuesOf "parser" ms) ∧
            Readable (M.Decodes (CheckSettings.reader L)) (valuesOf "checker" ms)) ∧
        ∀ s, ofText L text = .ok s ↔ ∃ read check,
          AtMostOnce (M.Decodes (ReadSettings.reader L)) (valuesOf "parser" ms) read ∧
            AtMostOnce (M.Decodes (CheckSettings.reader L)) (valuesOf "checker" ms) check ∧
            s = ⟨read.getD {}, check.getD {}⟩) ∧
      (∀ ms,
        ((∃ s, M.Decodes (ReadSettings.reader L) (.object ms) s) ↔
          Readable (M.Decodes L.bool) (valuesOf "require_end_of_input" ms)) ∧
        ∀ s, M.Decodes (ReadSettings.reader L) (.object ms) s ↔ ∃ toEnd,
          AtMostOnce (M.Decodes L.bool) (valuesOf "require_end_of_input" ms) toEnd ∧
            s = ⟨toEnd.getD false⟩) ∧
      (∀ ms,
        ((∃ s, M.Decodes (CheckSettings.reader L) (.object ms) s) ↔
          Readable (M.Decodes (Strategy.reader L)) (valuesOf "evaluation" ms) ∧
            Readable (M.Decodes L.bool) (valuesOf "short_circuit" ms)) ∧
        ∀ s, M.Decodes (CheckSettings.reader L) (.object ms) s ↔ ∃ strategy hasty,
          AtMostOnce (M.Decodes (Strategy.reader L)) (valuesOf "evaluation" ms) strategy ∧
            AtMostOnce (M.Decodes L.bool) (valuesOf "short_circuit" ms) hasty ∧
            s = ⟨strategy.getD .tasks, hasty.getD false⟩) ∧
      (∀ v, (∀ b, M.Decodes L.bool v b ↔ v = .bool b) ∧
        ∀ s, M.Decodes (Strategy.reader L) v s ↔
          v = .string s.word ∨ v = .object [(s.word, .null)]) ∧
      ∀ ms ms' text text', (Value.object ms).Written text → (Value.object ms').Written text' →
        Same ms ms' → ∀ s, ofText L text = .ok s ↔ ofText L text' = .ok s := by
  refine ⟨Json.meaning_lawful, fun L M laws => ?_⟩
  -- Every text of an object is decoded to what the object is, so only the members are left.
  have decoded {ms text} (written : (Value.object ms).Written text) (s : Settings) :
      ofText L text = .ok s ↔ M.Decodes (reader L) (.object ms) s :=
    laws.decode_iff (takes laws) written
  refine ⟨?_, ?_, ?_, ?_, ?_⟩
  · intro ms text written
    simp only [decoded written]
    exact ⟨exists_decodes_iff laws, fun s => decodes_iff laws⟩
  · exact fun ms => ⟨ReadSettings.exists_decodes_iff laws, fun s => ReadSettings.decodes_iff laws⟩
  · exact fun ms => ⟨CheckSettings.exists_decodes_iff laws, fun s => CheckSettings.decodes_iff laws⟩
  · exact fun v => ⟨fun b => laws.decodes_bool, fun s => Strategy.decodes_iff laws⟩
  · intro ms ms' text text' written written' same s
    rw [decoded written, decoded written', same.decodes_iff laws]

/-- A blank, an unknown member and an escape in a key are no hindrance. -/
theorem decoded_by_known_keys_of_escape :
    ofText Json.decoder "\x7b \"x\":[],\"\\u0063hecker\":\x7b\"short_circuit\":true\x7d\x7d" =
      .ok { check := { hasty := true } } := by
  let ms : List (String × Value) :=
    [("x", .array []), ("checker", .object [("short_circuit", .bool true)])]
  have tight : ∀ c ∈ ([] : List Char), Json.isBlank c = true := nofun
  have blank : ∀ c ∈ [' '], Json.isBlank c = true := by simp [Json.isBlank]
  have x : Json.Quoted "x".toList ['x'] := .of_plain (by simp)
  have checker : Json.Quoted "checker".toList ("\\u0063hecker".toList) :=
    @Json.Quoted.number '0' '0' '6' '3' 99 "hecker".toList _ rfl rfl rfl (.of_plain (by simp))
  have short_circuit : Json.Quoted "short_circuit".toList "short_circuit".toList :=
    .of_plain (by simp)
  have written : (Value.object ms).Written
      "\x7b \"x\":[],\"\\u0063hecker\":\x7b\"short_circuit\":true\x7d\x7d" :=
    .cons tight .objectOpen <| .cons blank (.string x) <| .cons tight .colon <|
    .cons tight .arrayOpen <| .cons tight .arrayClose <| .cons tight .comma <|
    .cons tight (.string checker) <| .cons tight .colon <| .cons tight .objectOpen <|
    .cons tight (.string short_circuit) <| .cons tight .colon <| .cons tight .yes <|
    .cons tight .objectClose <| .cons tight .objectClose <| .nil tight
  obtain ⟨lawful, decoded⟩ := decoded_by_known_keys
  obtain ⟨top, -, inner, leaves, -⟩ := decoded Json.decoder Json.meaning lawful
  have hasty : Json.meaning.Decodes (CheckSettings.reader Json.decoder)
      (.object [("short_circuit", .bool true)]) ⟨.tasks, true⟩ :=
    ((inner _).2 _).mpr ⟨none, some true, .absent, .once (((leaves _).1 _).mpr rfl), rfl⟩
  exact ((top ms _ written).2 _).mpr ⟨none, some ⟨.tasks, true⟩, .absent, .once hasty, rfl⟩

end Settings

end Guardedness
