/-!
# Decoders

Settings are decoded by a library. What they need of it are readers for truth values, for words
and for records, and a way to decode a whole text by a reader.
-/

namespace Guardedness

/-- A field of a record, kept in a value of type `σ` while the record is read. -/
structure Field (Reader : Type → Type) (σ : Type) where
  key : String
  isSet : σ → Bool
  reader : Reader (σ → σ)

/-- A library that decodes texts. -/
structure Decoder where
  Reader : Type → Type
  map {α β : Type} : (α → β) → Reader α → Reader β
  bool : Reader Bool
  /-- Read one of some words, as what it stands for. -/
  word {α : Type} : List (String × α) → Reader α
  /-- Read a record, starting from one that has no field set. -/
  record {σ : Type} : (name : String) → List (Field Reader σ) → (empty : σ) → Reader σ
  Fault : Type
  detail? : Fault → Option String
  decode {α : Type} : Reader α → String → Except Fault α

end Guardedness
