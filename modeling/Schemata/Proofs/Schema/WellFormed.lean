import Schemata.Resolve.Untagged
import Mathlib.Tactic

/-!
# Well-formed schemas

What a schema promises to those who read it, stated on the schema alone:

* the names and the keys of the fields that one document holds are distinct;
* keys of maps are strings or whole numbers, wherever a map is written;
* members of enums have distinct names and distinct values, of the type of the
  enum and in its range;
* cases of interfaces have distinct names and literals, and documents tell
  them apart;
* endpoints of services have distinct names and ids, and arguments distinct
  names.
-/

namespace Schemata

/-- Fields with distinct names and distinct keys. -/
structure DistinctFields
    (fields : List Field) : Prop where
  names : (fields.map (·.name)).Nodup
  jsonNames : (fields.map (·.jsonName)).Nodup

/-- The type is `string` or an integer type. -/
def TypeRef.IsKeyType
    (type : TypeRef) : Prop :=
  type = .primitive .string ∨ ∃ p : Primitive, type = .primitive p ∧ p.isInteger = true

/-- Every map that the type is written with has strings or whole numbers as keys. -/
def TypeRef.ValidKeys
    (type : TypeRef) : Prop :=
  ∀ key value, TypeRef.map key value ∈ type.parts → key.IsKeyType

/-- The value is of the kind of the type and in its range. -/
def EnumType.Admits
    (type : EnumType) :
    EnumValue → Prop
  | .string _ => type = .string
  | .number n =>
      ∃ least greatest,
        type.range? = some (least, greatest) ∧ least ≤ n ∧ n ≤ greatest

/-- The members of an enum can be told apart by name and by value. -/
structure WellFormedEnum
    (type : EnumType)
    (members : List EnumMember) : Prop where
  names : (members.map (·.name)).Nodup
  values : (members.map (·.value)).Nodup
  admitted : ∀ m ∈ members, type.Admits m.value

/-- The cases of an interface can be told apart; `nested` are the names of the declarations inside
the interface. -/
structure InterfaceBody.WellFormed
    (body : InterfaceBody)
    (nested : List String) : Prop where
  shared : DistinctFields body.fields
  cases : ∀ c ∈ body.subTypes, DistinctFields (body.fieldsOf c)
  names : (body.subTypes.map (·.name)).Nodup
  notNested : ∀ c ∈ body.subTypes, c.name ∉ nested
  literals : (body.subTypes.map (·.literal)).Nodup
  tag : ∀ tag, body.strategy = .tagged tag →
    ∀ f ∈ body.fields ++ body.subTypes.flatMap (·.fields), f.jsonName ≠ tag
  untagged : body.strategy = .untagged → Untagged.check body = []

/-- The endpoints of a service and the arguments of each endpoint have names of their own. -/
structure WellFormedService
    (endpoints : List Endpoint) : Prop where
  names : (endpoints.map (·.name)).Nodup
  ids : (endpoints.map (·.id)).Nodup
  arguments : ∀ e ∈ endpoints, (e.arguments.map (·.name)).Nodup

namespace DeclBody

/-- The rules of each kind of declaration; `nested` are the names of the declarations inside. -/
def WellFormed
    (nested : List String) :
    DeclBody → Prop
  | type fields => DistinctFields fields
  | tuple fields => DistinctFields fields ∧ ∀ f ∈ fields, f.optional = false
  | interface body => body.WellFormed nested
  | enum valueType members => WellFormedEnum valueType members
  | service endpoints => WellFormedService endpoints

/-- The types that a body is written with. -/
def types : DeclBody → List TypeRef
  | type fields | tuple fields => fields.map (·.type)
  | interface body => (body.fields ++ body.subTypes.flatMap (·.fields)).map (·.type)
  | enum _ _ => []
  | service endpoints =>
      endpoints.flatMap fun e =>
        e.arguments.map (·.channel.type) ++ (e.response.map (·.type)).toList

end DeclBody

/-- A declaration of a package follows the rules of its kind, and its types have valid keys. -/
structure Decl.WellFormed
    (p : Package)
    (d : Decl) : Prop where
  body : d.body.WellFormed (d.children.map fun c => (p.decl c).name)
  keys : ∀ type ∈ d.body.types, type.ValidKeys

/-- Every declaration of every package is well formed. -/
def Schema.WellFormed
    (s : Schema) : Prop :=
  ∀ p ∈ s.packages, ∀ d ∈ p.decls, d.WellFormed p

section Keys

theorem TypeRef.isKey_iff
    (type : TypeRef) :
    type.isKey = true ↔ type.IsKeyType := by
  cases type with
  | primitive p =>
      simp [TypeRef.isKey, TypeRef.IsKeyType]
  | decl id =>
      simp [TypeRef.isKey, TypeRef.IsKeyType]
  | array item =>
      simp [TypeRef.isKey, TypeRef.IsKeyType]
  | map key value =>
      simp [TypeRef.isKey, TypeRef.IsKeyType]
  | tuple items =>
      simp [TypeRef.isKey, TypeRef.IsKeyType]

theorem TypeRef.mem_partsList
    (part : TypeRef)
    (types : List TypeRef) :
    part ∈ TypeRef.partsList types ↔ ∃ type ∈ types, part ∈ type.parts := by
  induction types with
  | nil =>
      simp [TypeRef.partsList]
  | cons type types ih =>
      simp [TypeRef.partsList, ih]

@[simp] theorem TypeRef.validKeys_primitive
    (p : Primitive) :
    (TypeRef.primitive p).ValidKeys := by
  simp [TypeRef.ValidKeys, TypeRef.parts]

@[simp] theorem TypeRef.validKeys_decl
    (id : DeclId) :
    (TypeRef.decl id).ValidKeys := by
  simp [TypeRef.ValidKeys, TypeRef.parts]

@[simp] theorem TypeRef.validKeys_array
    (item : TypeRef) :
    (TypeRef.array item).ValidKeys ↔ item.ValidKeys := by
  simp [TypeRef.ValidKeys, TypeRef.parts]

@[simp] theorem TypeRef.validKeys_map
    (key value : TypeRef) :
    (TypeRef.map key value).ValidKeys ↔
      key.IsKeyType ∧ key.ValidKeys ∧ value.ValidKeys := by
  simp only [TypeRef.ValidKeys, TypeRef.parts, List.mem_cons, List.mem_append]
  constructor
  · intro h
    exact ⟨h key value (Or.inl rfl), fun k v hmem => h k v (Or.inr (Or.inl hmem)),
      fun k v hmem => h k v (Or.inr (Or.inr hmem))⟩
  · rintro ⟨hkey, hinKey, hinValue⟩ k v (heq | hmem | hmem)
    · obtain ⟨rfl, rfl⟩ := TypeRef.map.inj heq
      exact hkey
    · exact hinKey k v hmem
    · exact hinValue k v hmem

@[simp] theorem TypeRef.validKeys_tuple
    (items : List TypeRef) :
    (TypeRef.tuple items).ValidKeys ↔ ∀ item ∈ items, item.ValidKeys := by
  simp only [TypeRef.ValidKeys, TypeRef.parts, List.mem_cons, TypeRef.mem_partsList,
    reduceCtorEq, false_or]
  constructor
  · intro h item hitem key value hmem
    exact h key value ⟨item, hitem, hmem⟩
  · rintro h key value ⟨item, hitem, hmem⟩
    exact h item hitem key value hmem

end Keys

section Access

theorem Decl.absent_wellFormed
    (p : Package) :
    Decl.absent.WellFormed p :=
  ⟨⟨List.nodup_nil, List.nodup_nil⟩, by simp [Decl.absent, DeclBody.types]⟩

/-- What is read at any place of a well-formed schema is well formed. -/
theorem Schema.WellFormed.decl
    {s : Schema}
    (hs : s.WellFormed)
    (id : DeclId) :
    (s.decl id).WellFormed (s.package id.package) := by
  unfold Schema.decl Package.decl
  cases hd : (s.package id.package).decls[id.index]? with
  | none =>
      exact Decl.absent_wellFormed _
  | some d =>
      have hmem : d ∈ (s.package id.package).decls := List.mem_of_getElem? hd
      unfold Schema.package at hmem ⊢
      cases hp : s.packages[id.package]? with
      | none =>
          rw [hp] at hmem
          simp [Package.absent] at hmem
      | some p =>
          rw [hp] at hmem
          exact hs p (List.mem_of_getElem? hp) d hmem

end Access

end Schemata
