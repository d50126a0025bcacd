import Guardedness.Decimal
import Guardedness.Decoder
import Guardedness.Json.Lexeme
import Guardedness.Text.Quoted

/-!
# Reading typed values from JSON

A reader takes a value of its own type off the front of a list of lexemes. It goes from left to
right and stops at the first fault, so of two faults the earlier one is reported.

**Faults.** A word that is none of the known ones, a value of another type, and a key given twice
are reported with details. Everything else is malformed text: a lexeme that cannot stand where
it does, or the end of the lexemes, whether the text ends there or goes on with something that is
no lexeme.

**Values that nobody asked for** (`skip?`) may be of any type and nested to any depth; they are
read for their form only.

**Records** (`Reader.record`). A record is an object, whose members may come in any order, or an
array of the fields in order, which may be cut short. Unknown keys are skipped with their values;
a known key given twice is a fault, found before its second value.
-/

namespace Guardedness

namespace Json

/-- What stands where a value of another type is expected. -/
inductive Found where
  | scalar (x : Scalar)
  | bool (b : Bool)
  | string (text : String)
  | null
  | sequence
  | map

/-- A text between backticks. -/
def ticked (s : String) : String := "`" ++ s ++ "`"

/-- How a value is named to the user. -/
def Found.describe : Found → String
  | scalar (.integer n) => "integer " ++ ticked (toString n)
  | scalar (.float x) => "floating point " ++ ticked (Decimal.render x)
  | bool b => "boolean " ++ ticked (toString b)
  | string text => "string " ++ Text.quote text
  | null => "null"
  | sequence => "sequence"
  | map => "map"

/-- Why a text has no value of the type asked for. -/
inductive Fault where
  | malformed
  | unknownWord (word : String) (known : List String)
  | wrongType (found : Found) (expected : String)
  | repeatedKey (key : String)

def Fault.detail? : Fault → Option String
  | malformed => none
  | unknownWord word known =>
    some ("unknown variant " ++ ticked word ++ ", expected one of " ++
      ", ".intercalate (known.map ticked))
  | wrongType found expected =>
    some ("invalid type: " ++ found.describe ++ ", expected " ++ expected)
  | repeatedKey key => some ("duplicate field " ++ ticked key)

/-- The value that starts with a lexeme, as far as the lexeme tells. -/
def Lexeme.found? : Lexeme → Option Found
  | objectOpen => some .map
  | arrayOpen => some .sequence
  | string text => text.map .string
  | numeral n => n.value?.map .scalar
  | bool b => some (.bool b)
  | null => some .null
  | _ => none

/-- The fault of finding `l` where a value of another type is expected. -/
def mismatch (l : Lexeme) (expected : String) : Fault :=
  match l.found? with
  | some found => .wrongType found expected
  | none => .malformed

/-! ## Skipping a value -/

/-- An open bracket. -/
inductive Bracket where
  | array
  | object
deriving DecidableEq

/-- What may come next while a value is skipped. -/
inductive Next where
  | value
  | itemOrClose
  | keyOrClose
  | key
  | colon
  | commaOrClose
deriving DecidableEq

/-- How far the skipping of a value is. -/
inductive Skipping where
  | within (next : Next) (inside : List Bracket)
  | finished

/-- A value has ended inside some brackets. -/
def Skipping.ended (inside : List Bracket) : Skipping :=
  if inside.isEmpty then finished else within .commaOrClose inside

/-- A value starts inside some brackets. -/
def Skipping.start? (inside : List Bracket) : Lexeme → Option Skipping
  | .arrayOpen => some (within .itemOrClose (.array :: inside))
  | .objectOpen => some (within .keyOrClose (.object :: inside))
  | .string _ | .numeral _ | .bool _ | .null => some (ended inside)
  | _ => none

/-- Skip one lexeme, if it may come next. -/
def Skipping.next? : Next → List Bracket → Lexeme → Option Skipping
  | .itemOrClose, .array :: inside, .arrayClose => some (ended inside)
  | .value, inside, l | .itemOrClose, inside, l => start? inside l
  | .keyOrClose, .object :: inside, .objectClose => some (ended inside)
  | .keyOrClose, inside, .string _ | .key, inside, .string _ => some (within .colon inside)
  | .colon, inside, .colon => some (within .value inside)
  | .commaOrClose, .array :: inside, .comma => some (within .value (.array :: inside))
  | .commaOrClose, .object :: inside, .comma => some (within .key (.object :: inside))
  | .commaOrClose, .array :: inside, .arrayClose => some (ended inside)
  | .commaOrClose, .object :: inside, .objectClose => some (ended inside)
  | _, _, _ => none

/-- Skip to the end of a value; the lexemes after it. -/
def skipWithin? (next : Next) (inside : List Bracket) : List Lexeme → Option (List Lexeme)
  | [] => none
  | l :: rest =>
    match Skipping.next? next inside l with
    | none => none
    | some .finished => some rest
    | some (.within next inside) => skipWithin? next inside rest

/-- Skip a value of any type. -/
def skip? (ls : List Lexeme) : Option (List Lexeme) := skipWithin? .value [] ls

theorem skipWithin?_length_lt {next : Next} {inside : List Bracket} {ls rest : List Lexeme}
    (h : skipWithin? next inside ls = some rest) : rest.length < ls.length := by
  fun_induction skipWithin? next inside ls with
  | case1 => simp at h
  | case2 => simp at h
  | case3 => cases h; simp
  | case4 next inside l _ _ _ _ ih => exact Nat.lt_succ_of_lt (ih h)

/-! ## Readers -/

/-- What reading gives: a value and the lexemes after it, or a fault. -/
abbrev Read (α : Type) := Except Fault (α × List Lexeme)

/-- A reader of values: each takes at least one lexeme. -/
structure Reader (α : Type) where
  read : List Lexeme → Read α
  shrinks : ∀ {ls a rest}, read ls = .ok (a, rest) → rest.length < ls.length

namespace Reader

/-- Read a value and change it. -/
def map {α β : Type} (f : α → β) (r : Reader α) : Reader β where
  read ls :=
    match r.read ls with
    | .ok (a, rest) => .ok (f a, rest)
    | .error e => .error e
  shrinks h := by
    split at h
    · next hr => cases h; exact r.shrinks hr
    · cases h

def skip : Reader Unit where
  read ls :=
    match skip? ls with
    | some rest => .ok ((), rest)
    | none => .error .malformed
  shrinks h := by
    split at h
    · next hs => cases h; exact skipWithin?_length_lt hs
    · cases h

def bool : Reader Bool where
  read
    | .bool b :: rest => .ok (b, rest)
    | l :: _ => .error (mismatch l "a boolean")
    | [] => .error .malformed
  shrinks h := by
    split at h
    · cases h; simp
    · cases h
    · cases h

/-- The value that a known word stands for. -/
def ofWord {α : Type} (words : List (String × α)) (w : String) : Except Fault α :=
  match words.lookup w with
  | some a => .ok a
  | none => .error (.unknownWord w (words.map (·.1)))

/-- Read one of some words: a string, or an object whose only key is the word and whose value is
`null`. -/
def word {α : Type} (words : List (String × α)) : Reader α where
  read
    | .string (some w) :: rest => (ofWord words w).map (·, rest)
    | .objectOpen :: .string (some w) :: rest =>
      match ofWord words w, rest with
      | .error e, _ => .error e
      | .ok a, .colon :: .null :: .objectClose :: rest => .ok (a, rest)
      | .ok _, .colon :: .null :: _ => .error .malformed
      | .ok _, .colon :: l :: _ => .error (mismatch l "unit")
      | .ok _, _ => .error .malformed
    | _ => .error .malformed
  shrinks {ls a rest} h := by
    split at h
    · next w rest' =>
      cases hw : ofWord words w <;> simp [hw, Except.map] at h
      obtain ⟨-, rfl⟩ := h
      simp
    · split at h <;> cases h
      simp only [List.length_cons]
      omega
    · cases h

end Reader

/-! ## Records -/

namespace Reader

variable {σ : Type}

/-- Read the value of a field into a record. -/
def field (f : Field Reader σ) (s : σ) (ls : List Lexeme) : Read σ :=
  match f.reader.read ls with
  | .ok (set, rest) => .ok (set s, rest)
  | .error e => .error e

theorem field_length_lt {f : Field Reader σ} {s t : σ} {ls rest : List Lexeme}
    (h : field f s ls = .ok (t, rest)) : rest.length < ls.length := by
  unfold field at h
  split at h
  · next hr => cases h; exact f.reader.shrinks hr
  · cases h

/-- Read what follows a key: a colon and a value, which is skipped if the key is unknown. -/
def member (fields : List (Field Reader σ)) (s : σ) (key : String) (ls : List Lexeme) : Read σ :=
  match fields.find? (·.key == key), ls with
  | some f, ls =>
    if f.isSet s then .error (.repeatedKey key)
    else
      match ls with
      | .colon :: rest => field f s rest
      | _ => .error .malformed
  | none, .colon :: rest => (skip.map fun _ => s).read rest
  | none, _ => .error .malformed

theorem member_length_lt {fields : List (Field Reader σ)} {s t : σ} {key : String}
    {ls rest : List Lexeme} (h : member fields s key ls = .ok (t, rest)) : rest.length < ls.length := by
  unfold member at h
  split at h
  · split at h
    · cases h
    · split at h
      · exact Nat.lt_succ_of_lt (field_length_lt h)
      · cases h
  · exact Nat.lt_succ_of_lt ((skip.map fun _ => s).shrinks h)
  · cases h

/-- Read members up to the end of an object. -/
def members (fields : List (Field Reader σ)) (s : σ) : List Lexeme → Read σ
  | .string (some key) :: rest =>
    match _h : member fields s key rest with
    | .ok (s, .objectClose :: rest) => .ok (s, rest)
    | .ok (s, .comma :: rest) => members fields s rest
    | .ok _ => .error .malformed
    | .error e => .error e
  | _ => .error .malformed
termination_by ls => ls.length
decreasing_by
  have := member_length_lt ‹_›
  simp only [List.length_cons] at this ⊢
  omega

theorem members_length_lt {fields : List (Field Reader σ)} {s t : σ} {ls rest : List Lexeme}
    (h : members fields s ls = .ok (t, rest)) : rest.length < ls.length := by
  fun_induction members fields s ls with
  | case1 s key _ u _ hm =>
    cases h
    have := member_length_lt hm
    simp only [List.length_cons] at this ⊢
    omega
  | case2 s key _ u _ hm ih =>
    have h₁ := member_length_lt hm
    have h₂ := ih h
    simp only [List.length_cons] at h₁ ⊢
    omega
  | case3 => cases h
  | case4 => cases h
  | case5 => cases h

/-- Where the next item of an array starts: at once, or after a comma. -/
def itemStart? (first : Bool) (ls : List Lexeme) : Option (List Lexeme) :=
  match first, ls with
  | true, ls => some ls
  | false, .comma :: rest => some rest
  | false, _ => none

theorem itemStart?_length_le {first : Bool} {ls rest : List Lexeme}
    (h : itemStart? first ls = some rest) : rest.length ≤ ls.length := by
  unfold itemStart? at h
  split at h <;> cases h <;> simp

/-- Read the fields of a record as items, up to the end of an array; `first` if none is read. -/
def items (first : Bool) (s : σ) : List (Field Reader σ) → List Lexeme → Read σ
  | _, .arrayClose :: rest => .ok (s, rest)
  | [], _ => .error .malformed
  | f :: fields, ls =>
    match itemStart? first ls with
    | none => .error .malformed
    | some ls =>
      match field f s ls with
      | .ok (s, rest) => items false s fields rest
      | .error e => .error e

theorem items_length_lt {first : Bool} {s t : σ} {fields : List (Field Reader σ)}
    {ls rest : List Lexeme} (h : items first s fields ls = .ok (t, rest)) : rest.length < ls.length := by
  fun_induction items first s fields ls with
  | case1 => cases h; simp
  | case2 => cases h
  | case3 => cases h
  | case4 first s ls _ f fields ls' hi s' rest' hr ih =>
    have h₁ := itemStart?_length_le hi
    have h₂ := field_length_lt hr
    have h₃ := ih h
    omega
  | case5 => cases h

/-- Read a record called `name`, starting from the one that has no field set. -/
def record (name : String) (fields : List (Field Reader σ)) (empty : σ) : Reader σ where
  read
    | .objectOpen :: .objectClose :: rest => .ok (empty, rest)
    | .objectOpen :: rest => members fields empty rest
    | .arrayOpen :: rest => items true empty fields rest
    | l :: _ => .error (mismatch l name)
    | [] => .error .malformed
  shrinks h := by
    split at h
    · cases h; simp only [List.length_cons]; omega
    · exact Nat.lt_succ_of_lt (members_length_lt h)
    · exact Nat.lt_succ_of_lt (items_length_lt h)
    · cases h
    · cases h

end Reader

/-- The value that a whole text holds. -/
def decode {α : Type} (r : Reader α) (text : String) : Except Fault α :=
  match r.read (lexemes text).1 with
  | .error e => .error e
  | .ok (a, rest) => if rest.isEmpty && (lexemes text).2 then .ok a else .error .malformed

/-- The decoder of JSON texts. -/
abbrev decoder : Decoder where
  Reader := Reader
  map := Reader.map
  bool := Reader.bool
  word := Reader.word
  record := Reader.record
  Fault := Fault
  detail? := Fault.detail?
  decode := decode

end Json

end Guardedness
