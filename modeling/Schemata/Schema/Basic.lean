import Schemata.Namespace
import Schemata.Primitive
import Schemata.Source
import Schemata.Text.Quoted

/-!
# Schemas

A schema is a list of packages.  Each package has one table of all its
declarations, nested ones included; declarations refer to each other by their
place in these tables.  A place that does not exist reads as an empty type.
-/

namespace Schemata

/-- The place of a declaration: its package and its index in the table of the package. -/
structure DeclId where
  package : Nat
  index : Nat
deriving DecidableEq, Repr

/-- A type with its names resolved. -/
inductive TypeRef where
  | primitive (type : Primitive)
  | decl (id : DeclId)
  | array (item : TypeRef)
  | map (key value : TypeRef)
  | tuple (items : List TypeRef)
deriving Repr

/-- A field of a declaration. -/
structure Field where
  name : String
  /-- The key of the field in documents. -/
  jsonName : String
  type : TypeRef
  optional : Bool
  doc : List String
  span : Span
deriving Repr

/-- A case of an interface. -/
structure SubType where
  name : String
  /-- The value of the tag that stands for this case. -/
  literal : String
  doc : List String
  fields : List Field
  span : Span
deriving Repr

/-- How a document shows the case of an interface. -/
inductive Strategy where
  /-- A key of the object holds the literal of the case. -/
  | tagged (tag : String)
  /-- The case is known by its required keys. -/
  | untagged
deriving DecidableEq, Repr

/-- Where the tag of an interface is written among the keys of an object. -/
inductive Placement where
  | first
  | last
deriving DecidableEq, Repr

/-- The type of the values of an enum. -/
inductive EnumType where
  | string
  | u32
  | u64
  | i32
  | i64
deriving DecidableEq, Repr

/-- The value of a member of an enum. -/
inductive EnumValue where
  | string (text : String)
  | number (value : Int)
deriving DecidableEq, Repr

/-- A member of an enum. -/
structure EnumMember where
  name : String
  value : EnumValue
  doc : List String
  span : Span
deriving Repr

/-- A type that travels alone or as a stream. -/
structure Channel where
  type : TypeRef
  streaming : Bool
deriving Repr

/-- An argument of an endpoint. -/
structure Argument where
  name : String
  channel : Channel
deriving Repr

/-- An endpoint of a service. -/
structure Endpoint where
  name : String
  id : String
  doc : List String
  arguments : List Argument
  response : Option Channel
  span : Span
deriving Repr

/-- The body of an interface. -/
structure InterfaceBody where
  /-- Fields that all cases share. -/
  fields : List Field
  subTypes : List SubType
  strategy : Strategy
deriving Repr

/-- The body of a declaration. -/
inductive DeclBody where
  | type (fields : List Field)
  | tuple (fields : List Field)
  | interface (body : InterfaceBody)
  | enum (type : EnumType) (members : List EnumMember)
  | service (endpoints : List Endpoint)
deriving Repr

/-- A declaration. -/
structure Decl where
  /-- The place of the declaration itself. -/
  id : DeclId
  name : String
  doc : List String
  /-- Index of the declaration that encloses this one. -/
  parent : Option Nat
  /-- Indices of the declarations directly inside this one. -/
  children : List Nat
  body : DeclBody
  span : Span
deriving Repr

/-- A package of a schema. -/
structure Package where
  identity : Identity
  ns : Namespace
  doc : List String
  decls : List Decl
  /-- Indices of the outermost declarations. -/
  roots : List Nat
deriving Repr

/-- A set of packages that refer to each other. -/
structure Schema where
  packages : List Package
deriving Repr

namespace TypeRef

mutual

/-- Equality of types can be decided. -/
def decEq : (a b : TypeRef) → Decidable (a = b)
  | primitive p, primitive q =>
      if h : p = q then isTrue (by rw [h]) else isFalse fun e => h (primitive.inj e)
  | decl a, decl b =>
      if h : a = b then isTrue (by rw [h]) else isFalse fun e => h (decl.inj e)
  | array a, array b =>
      match decEq a b with
      | isTrue h => isTrue (by rw [h])
      | isFalse h => isFalse fun e => h (array.inj e)
  | map k v, map l w =>
      match decEq k l, decEq v w with
      | isTrue h, isTrue h' => isTrue (by rw [h, h'])
      | isFalse h, _ => isFalse fun e => h (map.inj e).1
      | _, isFalse h => isFalse fun e => h (map.inj e).2
  | tuple as, tuple bs =>
      match decEqList as bs with
      | isTrue h => isTrue (by rw [h])
      | isFalse h => isFalse fun e => h (tuple.inj e)
  | primitive _, decl _ => isFalse (by simp)
  | primitive _, array _ => isFalse (by simp)
  | primitive _, map _ _ => isFalse (by simp)
  | primitive _, tuple _ => isFalse (by simp)
  | decl _, primitive _ => isFalse (by simp)
  | decl _, array _ => isFalse (by simp)
  | decl _, map _ _ => isFalse (by simp)
  | decl _, tuple _ => isFalse (by simp)
  | array _, primitive _ => isFalse (by simp)
  | array _, decl _ => isFalse (by simp)
  | array _, map _ _ => isFalse (by simp)
  | array _, tuple _ => isFalse (by simp)
  | map _ _, primitive _ => isFalse (by simp)
  | map _ _, decl _ => isFalse (by simp)
  | map _ _, array _ => isFalse (by simp)
  | map _ _, tuple _ => isFalse (by simp)
  | tuple _, primitive _ => isFalse (by simp)
  | tuple _, decl _ => isFalse (by simp)
  | tuple _, array _ => isFalse (by simp)
  | tuple _, map _ _ => isFalse (by simp)

/-- Equality of lists of types can be decided. -/
def decEqList : (as bs : List TypeRef) → Decidable (as = bs)
  | [], [] => isTrue rfl
  | [], _ :: _ => isFalse (by simp)
  | _ :: _, [] => isFalse (by simp)
  | a :: as, b :: bs =>
      match decEq a b, decEqList as bs with
      | isTrue h, isTrue hs => isTrue (by rw [h, hs])
      | isFalse h, _ => isFalse fun e => h (List.cons.inj e).1
      | _, isFalse hs => isFalse fun e => hs (List.cons.inj e).2

end

instance : DecidableEq TypeRef :=
  decEq

mutual

/-- A type and all types that it is written with. -/
def parts : TypeRef → List TypeRef
  | primitive type => [primitive type]
  | decl id => [decl id]
  | array item => array item :: parts item
  | map key value => map key value :: (parts key ++ parts value)
  | tuple items => tuple items :: partsList items

/-- The parts of several types. -/
def partsList : List TypeRef → List TypeRef
  | [] => []
  | type :: rest => parts type ++ partsList rest

end

theorem length_partsList_append
    (as bs : List TypeRef) :
    (partsList (as ++ bs)).length = (partsList as).length + (partsList bs).length := by
  induction as with
  | nil =>
      simp [partsList]
  | cons type as ih =>
      simp [partsList, ih, Nat.add_assoc]

/-- The declaration that the type is. -/
def decl? : TypeRef → Option DeclId
  | decl id => some id
  | _ => none

/-- The declarations that a type mentions. -/
def mentioned
    (type : TypeRef) :
    List DeclId :=
  type.parts.filterMap decl?

/-- A type that keys of maps may have. -/
def isKey : TypeRef → Bool
  | primitive type => type == .string || type.isInteger
  | _ => false

end TypeRef

/-- Order of places: by package, then by index. -/
def DeclId.le
    (a b : DeclId) :
    Bool :=
  a.package < b.package || (a.package == b.package && a.index ≤ b.index)

/-- A field that documents must have. -/
def Field.isRequired
    (f : Field) :
    Bool :=
  !f.optional

/-- The fields of a case: those that all cases share, then its own. -/
def InterfaceBody.fieldsOf
    (body : InterfaceBody)
    (s : SubType) :
    List Field :=
  body.fields ++ s.fields

namespace EnumType

/-- The primitive type of the values. -/
def primitive : EnumType → Primitive
  | string => .string
  | u32 => .u32
  | u64 => .u64
  | i32 => .i32
  | i64 => .i64

/-- The written form of the type. -/
def name
    (type : EnumType) :
    String :=
  type.primitive.name

/-- The least and the greatest value of a numeric type. -/
def range?
    (type : EnumType) :
    Option (Int × Int) :=
  type.primitive.range?

end EnumType

/-- The form in which messages show a value. -/
def EnumValue.display : EnumValue → String
  | string text => Text.shown text
  | number value => toString value

namespace Placement

/-- The placement with a name. -/
def parse? : String → Option Placement
  | "first" => some .first
  | "last" => some .last
  | _ => none

/-- The name of a placement. -/
def name : Placement → String
  | first => "first"
  | last => "last"

end Placement

namespace DeclBody

/-- The word for a kind of declaration. -/
def kind : DeclBody → String
  | type _ => "type"
  | tuple _ => "tuple"
  | interface _ => "interface"
  | enum _ _ => "enum"
  | service _ => "service"

/-- The fields of a type or tuple, or the shared fields of an interface. -/
def fields : DeclBody → List Field
  | type fields | tuple fields => fields
  | interface body => body.fields
  | enum _ _ | service _ => []

/-- All fields, those of the cases of an interface included. -/
def allFields : DeclBody → List Field
  | interface body => body.fields ++ body.subTypes.flatMap (·.fields)
  | body => body.fields

/-- A type or a tuple. -/
def isStruct : DeclBody → Bool
  | type _ | tuple _ => true
  | _ => false

end DeclBody

namespace Decl

/-- What is read at a place that does not exist: a type without name and fields. -/
def absent : Decl :=
  { id := ⟨0, 0⟩
    name := ""
    doc := []
    parent := none
    children := []
    body := .type []
    span := ⟨0, 0, 0⟩ }

/-- The fields of a type or tuple, or the shared fields of an interface. -/
def fields
    (d : Decl) :
    List Field :=
  d.body.fields

/-- All fields, those of the cases of an interface included. -/
def allFields
    (d : Decl) :
    List Field :=
  d.body.allFields

end Decl

namespace Package

/-- What is read at a place that does not exist: a package without declarations. -/
def absent : Package :=
  { identity := ⟨⟨[]⟩, none⟩
    ns := ⟨[], none⟩
    doc := []
    decls := []
    roots := [] }

/-- The declaration at an index. -/
def decl
    (p : Package)
    (index : Nat) :
    Decl :=
  p.decls[index]?.getD Decl.absent

end Package

namespace Schema

/-- The package at an index. -/
def package
    (s : Schema)
    (index : Nat) :
    Package :=
  s.packages[index]?.getD Package.absent

/-- The declaration at a place. -/
def decl
    (s : Schema)
    (id : DeclId) :
    Decl :=
  (s.package id.package).decl id.index

/-- The places of all declarations of a package. -/
def idsOf
    (s : Schema)
    (package : Nat) :
    List DeclId :=
  (List.range (s.package package).decls.length).map (⟨package, ·⟩)

/-- The places of all declarations, in the order of packages and tables. -/
def ids
    (s : Schema) :
    List DeclId :=
  (List.range s.packages.length).flatMap s.idsOf

/-- The places of the outermost declarations of a package. -/
def rootsOf
    (s : Schema)
    (package : Nat) :
    List DeclId :=
  (s.package package).roots.map (⟨package, ·⟩)

/-- The places of the declarations directly inside a declaration. -/
def childrenOf
    (s : Schema)
    (id : DeclId) :
    List DeclId :=
  (s.decl id).children.map (⟨id.package, ·⟩)

end Schema

end Schemata
