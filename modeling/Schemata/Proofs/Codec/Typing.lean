import Schemata.Codec.Value
import Schemata.Proofs.Schema.WellFormed

/-!
# Values of types

`HasType s v type` says that `v` is a value of `type`, where the types of
records and enums are read from the schema `s`.

Values of a type can still differ from what documents say of them: a map may
give one key twice, and the slot of an object may hold the document `null`,
which reads as an absent field.  `Value.Canonical` rules these out at every
depth.  `Json.Standard` is what documents promise of their numbers.
-/

namespace Schemata

/-- The fields that the slots of a record are for, if the record has the shape of the
declaration. -/
def Schema.recordFields?
    (s : Schema)
    (id : DeclId)
    (subType : Option Nat) :
    Option (List Field) :=
  match (s.decl id).body, subType with
  | .type fields, none => some fields
  | .tuple fields, none => some fields
  | .interface body, some index => body.subTypes[index]?.map body.fieldsOf
  | _, _ => none

/-- The value is one of the type. -/
inductive HasType
    (s : Schema) :
    Value → TypeRef → Prop
  | boolean
      (b : Bool) :
      HasType s (.boolean b) (.primitive .boolean)
  | string
      (text : String)
      {p : Primitive}
      (hp : p = .string ∨ p = .datetime ∨ p = .bytes) :
      HasType s (.string text) (.primitive p)
  | integer
      {p : Primitive}
      {n least greatest : Int}
      (hrange : p.range? = some (least, greatest))
      (hleast : least ≤ n)
      (hgreatest : n ≤ greatest) :
      HasType s (.integer n) (.primitive p)
  | float
      {p : Primitive}
      {d : Decimal.Double}
      (hp : p = .float ∨ p = .double)
      (hfinite : d.isFinite = true) :
      HasType s (.float d) (.primitive p)
  | any
      (document : Json) :
      HasType s (.any document) (.primitive .any)
  | array
      {items : List Value}
      {item : TypeRef}
      (hitems : ∀ v ∈ items, HasType s v item) :
      HasType s (.array items) (.array item)
  | map
      {entries : List (Value × Value)}
      {key value : TypeRef}
      (hkeys : ∀ e ∈ entries, HasType s e.1 key)
      (hvalues : ∀ e ∈ entries, HasType s e.2 value) :
      HasType s (.map entries) (.map key value)
  | tuple
      {items : List Value}
      {types : List TypeRef}
      (hlength : items.length = types.length)
      (hitems : ∀ x ∈ items.zip types, HasType s x.1 x.2) :
      HasType s (.tuple items) (.tuple types)
  | record
      {id : DeclId}
      {subType : Option Nat}
      {fields : List Field}
      {slots : List (Option Value)}
      (hfields : s.recordFields? id subType = some fields)
      (hlength : slots.length = fields.length)
      (habsent : ∀ f, (f, none) ∈ fields.zip slots → f.optional = true)
      (hpresent : ∀ f v, (f, some v) ∈ fields.zip slots → HasType s v f.type) :
      HasType s (.record id subType slots) (.decl id)
  | enum
      {id : DeclId}
      {member : Nat}
      {valueType : EnumType}
      {members : List EnumMember}
      (hbody : (s.decl id).body = .enum valueType members)
      (hmember : member < members.length) :
      HasType s (.enum id member) (.decl id)

/-- A type over a schema: its declarations exist, and the keys of its maps are strings or whole
numbers. -/
structure TypeRef.Over
    (s : Schema)
    (type : TypeRef) : Prop where
  declared : ∀ id ∈ type.mentioned, id ∈ s.ids
  keys : type.ValidKeys

/-- The values directly inside a value. -/
def Value.inner : Value → List Value
  | .array items | .tuple items => items
  | .map entries => entries.map Prod.fst ++ entries.map Prod.snd
  | .record _ _ slots => slots.filterMap id
  | _ => []

/-- The records of the declaration are written as objects. -/
def Schema.WritesObject
    (s : Schema)
    (id : DeclId) : Prop :=
  ∀ fields, (s.decl id).body ≠ .tuple fields

/-- At every depth, keys of maps are distinct and no slot of an object holds the document `null`. -/
inductive Value.Canonical
    (s : Schema) :
    Value → Prop
  | intro
      {v : Value}
      (hkeys : ∀ entries, v = .map entries → (entries.map Prod.fst).Nodup)
      (hslots : ∀ id subType slots, v = .record id subType slots →
        s.WritesObject id → some (.any .null) ∉ slots)
      (hinner : ∀ w ∈ v.inner, Canonical s w) :
      Canonical s v

/-- The documents directly inside a document. -/
def Json.inner : Json → List Json
  | .array items => items
  | .object entries => entries.map Prod.snd
  | _ => []

/-- At every depth, whole numbers fit 64 bits, signed or unsigned, and doubles are finite. -/
inductive Json.Standard : Json → Prop
  | intro
      {j : Json}
      (hinteger : ∀ n, j = .integer n →
        -9223372036854775808 ≤ n ∧ n ≤ 18446744073709551615)
      (hfloat : ∀ d, j = .float d → d.isFinite = true)
      (hinner : ∀ k ∈ j.inner, Standard k) :
      Standard j

section Canonical

variable {s : Schema}

theorem Value.Canonical.inner
    {v w : Value}
    (h : v.Canonical s)
    (hw : w ∈ v.inner) :
    w.Canonical s := by
  cases h with
  | intro hkeys hslots hinner =>
      exact hinner w hw

theorem Value.Canonical.keys
    {entries : List (Value × Value)}
    (h : (Value.map entries).Canonical s) :
    (entries.map Prod.fst).Nodup := by
  cases h with
  | intro hkeys hslots hinner =>
      exact hkeys entries rfl

theorem Value.Canonical.slots
    {id : DeclId}
    {subType : Option Nat}
    {slots : List (Option Value)}
    (h : (Value.record id subType slots).Canonical s)
    (hobject : s.WritesObject id) :
    some (.any .null) ∉ slots := by
  cases h with
  | intro hkeys hslots hinner =>
      exact hslots id subType slots rfl hobject

theorem Value.Canonical.slot
    {id : DeclId}
    {subType : Option Nat}
    {slots : List (Option Value)}
    {v : Value}
    (h : (Value.record id subType slots).Canonical s)
    (hv : some v ∈ slots) :
    v.Canonical s :=
  h.inner (List.mem_filterMap.mpr ⟨some v, hv, rfl⟩)

theorem Value.Canonical.entry
    {entries : List (Value × Value)}
    {e : Value × Value}
    (h : (Value.map entries).Canonical s)
    (he : e ∈ entries) :
    e.2.Canonical s :=
  h.inner (List.mem_append_right _ (List.mem_map_of_mem he))

end Canonical

section Types

variable {s : Schema}

/-- Values of key types are strings or whole numbers. -/
theorem HasType.key_cases
    {v : Value}
    {key : TypeRef}
    (hv : HasType s v key)
    (hkey : key.IsKeyType) :
    (key = .primitive .string ∧ ∃ name, v = .string name) ∨
      ∃ p n least greatest, key = .primitive p ∧ v = .integer n ∧
        p.range? = some (least, greatest) ∧ least ≤ n ∧ n ≤ greatest := by
  rcases hkey with rfl | ⟨p, rfl, hp⟩
  · cases hv with
    | string text hp =>
        exact Or.inl ⟨rfl, text, rfl⟩
    | integer hrange hleast hgreatest =>
        cases hrange
    | float hp hfinite =>
        simp at hp
  · cases hv with
    | boolean b =>
        cases hp
    | string text hstring =>
        rcases hstring with rfl | rfl | rfl <;> cases hp
    | integer hrange hleast hgreatest =>
        exact Or.inr ⟨p, _, _, _, rfl, rfl, hrange, hleast, hgreatest⟩
    | float hfloat hfinite =>
        rcases hfloat with rfl | rfl <;> cases hp
    | any document =>
        cases hp

/-- The fields of a case are among the fields of the interface. -/
theorem InterfaceBody.mem_fields_of_mem_fieldsOf
    {body : InterfaceBody}
    {index : Nat}
    {c : SubType}
    (hc : body.subTypes[index]? = some c)
    {f : Field}
    (hf : f ∈ body.fieldsOf c) :
    f ∈ body.fields ++ body.subTypes.flatMap (·.fields) := by
  rcases List.mem_append.mp hf with hshared | hown
  · exact List.mem_append_left _ hshared
  · exact List.mem_append_right _
      (List.mem_flatMap.mpr ⟨c, List.mem_of_getElem? hc, hown⟩)

/-- A record is one of a type, of a tuple, or of a case of an interface. -/
theorem Schema.recordFields?_cases
    {id : DeclId}
    {subType : Option Nat}
    {fields : List Field}
    (h : s.recordFields? id subType = some fields) :
    ((s.decl id).body = .type fields ∧ subType = none) ∨
      ((s.decl id).body = .tuple fields ∧ subType = none) ∨
      ∃ body index c, (s.decl id).body = .interface body ∧ subType = some index ∧
        body.subTypes[index]? = some c ∧ fields = body.fieldsOf c := by
  unfold Schema.recordFields? at h
  split at h
  · rename_i hbody
    obtain rfl := Option.some.inj h
    exact Or.inl ⟨hbody, rfl⟩
  · rename_i hbody
    obtain rfl := Option.some.inj h
    exact Or.inr (Or.inl ⟨hbody, rfl⟩)
  · rename_i body index hbody
    obtain ⟨c, hc, rfl⟩ := Option.map_eq_some_iff.mp h
    exact Or.inr (Or.inr ⟨body, index, c, hbody, rfl, hc, rfl⟩)
  · cases h

/-- Types of the fields of a record have valid keys. -/
theorem Schema.WellFormed.field_validKeys
    (hs : s.WellFormed)
    {id : DeclId}
    {subType : Option Nat}
    {fields : List Field}
    (hfields : s.recordFields? id subType = some fields) :
    ∀ f ∈ fields, f.type.ValidKeys := by
  intro f hf
  refine (hs.decl id).keys f.type ?_
  rcases Schema.recordFields?_cases hfields with
    ⟨hbody, -⟩ | ⟨hbody, -⟩ | ⟨body, index, c, hbody, -, hc, rfl⟩
  · rw [hbody]
    exact List.mem_map_of_mem hf
  · rw [hbody]
    exact List.mem_map_of_mem hf
  · rw [hbody]
    exact List.mem_map_of_mem (InterfaceBody.mem_fields_of_mem_fieldsOf hc hf)

end Types

end Schemata
