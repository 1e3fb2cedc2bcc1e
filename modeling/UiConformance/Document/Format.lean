import UiConformance.Document.Datum

/-!
# Document formats

What a document format must offer so that typed values can be read from it. A reader written with
these operations reads its value from every format; how a value that does not have the wanted shape
is refused is the format's own affair.
-/

namespace UiConformance

/-- A field of a record: how it is read into what is known of the record so far. -/
structure RecordField (R : Type → Type) (σ : Type) where
  name : String
  required : Bool
  read : σ → R σ

class DocumentFormat (R : Type → Type) extends Functor R where
  bool : R Bool
  text : R String
  /-- A signed word of 32 bits. -/
  int32 : R Int
  /-- An unsigned word of 64 bits. -/
  word64 : R Nat
  propertyValue : R PropertyValue
  /-- One of several names. -/
  variant {α : Type} : List (String × α) → R α
  list {α : Type} : R α → R (List α)
  /-- A map from texts; of a repeated key the last value counts. -/
  orderedMap {α : Type} : R α → R (OrderedMap String α)
  /-- A record by its name, its fields, and what it is where none of them is given. -/
  record {σ : Type} : String → List (RecordField R σ) → σ → R σ
  /-- A value that may hold values of its own kind. -/
  nested {α : Type} : (R α → R α) → R α

namespace RecordField

variable {R : Type → Type} [DocumentFormat R] {α σ : Type}

def optional (name : String) (reader : R α) (put : σ → α → σ) : RecordField R σ :=
  ⟨name, false, fun s => put s <$> reader⟩

def mandatory (name : String) (reader : R α) (put : σ → α → σ) : RecordField R σ :=
  ⟨name, true, fun s => put s <$> reader⟩

end RecordField

end UiConformance
