import Schemata.Number
import Schemata.Package
import Schemata.Primitive
import Schemata.Source

/-!
# Trees of schema files

What one file says, with the names of types as they are written.  Bodies of
declarations take the type of nested declarations as a parameter, so that a
declaration is a structure that holds a body of declarations.

**Results.** The declarations nested in a declaration are together smaller than
the declaration, so that recursion through them ends.
-/

namespace Schemata

/-- The name of a declaration, perhaps in an imported package. -/
structure TypeName where
  /-- Local name of the imported package. -/
  qualifier : Option String
  path : List String
  span : Span
deriving DecidableEq, Repr

/-- The written form of a name. -/
def TypeName.display
    (name : TypeName) :
    String :=
  String.intercalate "::" (name.qualifier.toList ++ name.path)

/-- A type as it is written. -/
inductive TypeExpr where
  | primitive (type : Primitive)
  | name (name : TypeName)
  | array (item : TypeExpr)
  | map (key value : TypeExpr)
  | tuple (items : List TypeExpr)
deriving Repr

/-- A literal value. -/
inductive Literal where
  | string (value : String)
  | number (value : Number)
  | boolean (value : Bool)
  | identifier (name : String)
deriving DecidableEq, Repr

/-- How messages name the kind of a literal. -/
def Literal.kind : Literal → String
  | string _ => "string"
  | number _ => "number"
  | boolean _ => "boolean"
  | identifier _ => "identifier"

namespace Tree

/-- The import of a package. -/
structure Import where
  package : Located PackageName
  range : Option (Located String)
  alias? : Option (Located String)
  span : Span
deriving Repr

/-- The name under which the file refers to the imported package. -/
def Import.localName
    (i : Import) :
    String :=
  match i.alias? with
  | some name => name.value
  | none => i.package.value.last

/-- An argument of an attribute. -/
structure Argument where
  name : Located String
  value : Option (Located Literal)
deriving Repr

/-- An attribute of a declaration. -/
structure Attribute where
  name : Located String
  args : List Argument
  span : Span
deriving Repr

/-- A field. -/
structure Field where
  doc : List String
  name : Located String
  optional : Bool
  type : Located TypeExpr
  alias? : Option (Located String)
  span : Span
deriving Repr

/-- A field or a nested declaration. -/
inductive Member (D : Type) where
  | field (field : Field)
  | decl (decl : D)
deriving Repr

/-- A case of an interface. -/
structure SubType (D : Type) where
  doc : List String
  name : Located String
  alias? : Option (Located Literal)
  members : List (Member D)
  span : Span
deriving Repr

/-- A member of an enum. -/
structure EnumMember where
  doc : List String
  name : Located String
  value : Option (Located Literal)
  span : Span
deriving Repr

/-- A type that travels alone or as a stream. -/
structure Channel where
  streaming : Bool
  type : Located TypeExpr
deriving Repr

/-- An argument of an endpoint. -/
structure EndpointArgument where
  name : Located String
  channel : Channel
deriving Repr

/-- An endpoint of a service. -/
structure Endpoint where
  doc : List String
  name : Located String
  arguments : List EndpointArgument
  response : Option Channel
  alias? : Option (Located String)
  span : Span
deriving Repr

/-- The body of a declaration. -/
inductive Body (D : Type) where
  | type (members : List (Member D))
  | tuple (members : List (Member D))
  | interface (members : List (Member D)) (subTypes : List (SubType D))
  | enum (type : Option (Located TypeExpr)) (members : List EnumMember)
  | service (endpoints : List Endpoint) (decls : List D)
deriving Repr

/-- A declaration. -/
structure Decl where
  doc : List String
  attributes : List Attribute
  name : Located String
  body : Body Decl
  span : Span
deriving Repr

/-- A file. -/
structure File where
  doc : List String
  imports : List Import
  decls : List Decl
deriving Repr

section Members

variable {D : Type}

/-- The declarations among members. -/
def Member.decls : List (Member D) → List D
  | [] => []
  | .decl d :: rest => d :: decls rest
  | .field _ :: rest => decls rest

/-- The fields among members. -/
def Member.fields : List (Member D) → List Field
  | [] => []
  | .decl _ :: rest => fields rest
  | .field f :: rest => f :: fields rest

/-- The declarations directly inside a body, in the order in which they are numbered. -/
def Body.nested : Body D → List D
  | .type members | .tuple members => Member.decls members
  | .interface members subTypes =>
      Member.decls members ++ subTypes.flatMap fun s => Member.decls s.members
  | .enum _ _ => []
  | .service _ decls => decls

end Members

section Size

/-- Appending lists adds their sizes. -/
theorem sizeOf_append
    {α : Type}
    [SizeOf α]
    (xs ys : List α) :
    sizeOf (xs ++ ys) + 1 = sizeOf xs + sizeOf ys := by
  induction xs with
  | nil =>
      simp
      omega
  | cons x xs ih =>
      simp
      omega

/-- The declarations among members are no larger than the members. -/
theorem Member.sizeOf_decls_le
    (members : List (Member Decl)) :
    sizeOf (Member.decls members) ≤ sizeOf members := by
  induction members with
  | nil => simp [Member.decls]
  | cons m rest ih =>
      cases m with
      | field f =>
          simp [Member.decls]
          omega
      | decl d =>
          simp [Member.decls]
          omega

/-- The declarations in the cases of an interface are no larger than the cases. -/
theorem SubType.sizeOf_decls_le
    (subTypes : List (SubType Decl)) :
    sizeOf (subTypes.flatMap fun s => Member.decls s.members) ≤ sizeOf subTypes := by
  induction subTypes with
  | nil => simp
  | cons s rest ih =>
      have hmembers := Member.sizeOf_decls_le s.members
      have happend :=
        sizeOf_append (Member.decls s.members)
          (rest.flatMap fun s => Member.decls s.members)
      cases s
      simp at *
      omega

/-- The declarations directly inside a body are smaller than the body. -/
theorem Body.sizeOf_nested_lt
    (body : Body Decl) :
    sizeOf body.nested < sizeOf body := by
  cases body with
  | type members =>
      have hmembers := Member.sizeOf_decls_le members
      simp [Body.nested]
      omega
  | tuple members =>
      have hmembers := Member.sizeOf_decls_le members
      simp [Body.nested]
      omega
  | interface members subTypes =>
      have hmembers := Member.sizeOf_decls_le members
      have hcases := SubType.sizeOf_decls_le subTypes
      have happend :=
        sizeOf_append (Member.decls members)
          (subTypes.flatMap fun s => Member.decls s.members)
      simp [Body.nested]
      omega
  | enum type members =>
      cases members with
      | nil =>
          simp only [Body.nested, Body.enum.sizeOf_spec, List.nil.sizeOf_spec]
          omega
      | cons m rest =>
          simp only [Body.nested, Body.enum.sizeOf_spec, List.nil.sizeOf_spec,
            List.cons.sizeOf_spec]
          omega
  | service endpoints decls =>
      simp only [Body.nested, Body.service.sizeOf_spec]
      omega

/-- The declarations directly inside a declaration are smaller than the declaration. -/
theorem Decl.sizeOf_nested_lt
    (d : Decl) :
    sizeOf d.body.nested < sizeOf d := by
  have hbody := Body.sizeOf_nested_lt d.body
  cases d
  simp at *
  omega

end Size

end Tree
end Schemata
