import Schemata.Emit.Code
import Schemata.Target.SwiftName

/-!
# Swift: definitions of types

Types, tuples and cases are structs, interfaces are enums with one case for
each of theirs, enums are enums and services are protocols.
-/

namespace Schemata
namespace Target
namespace Swift

open Code
open Emit (Member)

/-- What every type conforms to. -/
def conformances : String :=
  "Equatable, Hashable, CustomStringConvertible"

/-- A property that gives the text of a value. -/
def description
    (body : Code) :
    Code :=
  block "public var description: String" body

/-- A switch over the value itself, with one result for each case. -/
def switchSelf
    (cases : List (String × String)) :
    Code :=
  block "switch self" (cases.flatMap fun (pattern, result) =>
    line s!"case {pattern}:" ++ line s!"  return {result}")

/-- The members of a struct: its properties, its initializer and its text. -/
def structMembers
    (s : Schema)
    (display : String)
    (fields : List Field) :
    Code :=
  let ms := properties fields
  let parameters := ms.map fun m => s!"{m.ident}: {propertyType s m.field}"
  let parts := ms.map fun m => s!"{m.field.name}=\\(String(describing: self.{m.ident}))"
  let shown := String.intercalate ", " parts
  let header := String.intercalate ", " parameters
  (ms.flatMap fun m =>
      doc "///" m.field.doc ++ line s!"public let {m.ident}: {propertyType s m.field}")
    ++ blank
    ++ block s!"public init({header})" (lines (ms.map fun m => s!"self.{m.ident} = {m.ident}"))
    ++ blank
    ++ description (line s!"return \x22{display}({shown})\x22")

/-- The struct of a case. -/
def caseStruct
    (s : Schema)
    (body : InterfaceBody)
    (c : SubType) :
    Code :=
  blank
    ++ doc "///" c.doc
    ++ block s!"public struct {typeIdent c.name}: {conformances}"
        (structMembers s c.name (body.fieldsOf c))

/-- The members of the enum of an interface. -/
def interfaceMembers
    (s : Schema)
    (id : DeclId)
    (body : InterfaceBody) :
    Code :=
  let names := caseNames body
  ((body.subTypes.zip names).flatMap fun (c, name) =>
      doc "///" c.doc ++ line s!"case {name}({caseType s id c})")
    ++ blank
    ++ description (switchSelf (names.map fun name => (s!".{name}(let v)", "v.description")))
    ++ body.subTypes.flatMap (caseStruct s body)

/-- The members of an enum. -/
def enumMembers
    (members : List EnumMember) :
    Code :=
  let named := members.zip (enumCaseNames members)
  (named.flatMap fun (m, name) => doc "///" m.doc ++ line s!"case {name}")
    ++ blank
    ++ description (switchSelf (named.map fun (m, name) => (s!".{name}", Text.literal m.name)))

/-- The method of an endpoint. -/
def endpointCode
    (s : Schema)
    (e : Endpoint)
    (method : String) :
    Code :=
  let idents := Naming.Language.swift.spellAll .lowerCamel (e.arguments.map (·.name))
  let arguments := (e.arguments.zip idents).map fun (a, ident) =>
    s!"{ident}: {typeText s a.channel.type}"
  let list := String.intercalate ", " arguments
  let response :=
    match e.response with
    | some c => s!" -> {typeText s c.type}"
    | none => ""
  doc "///" e.doc ++ line s!"func {method}({list}) throws{response}"

/-- The methods of a service. -/
def serviceMembers
    (s : Schema)
    (endpoints : List Endpoint) :
    Code :=
  let methods := Naming.Language.swift.spellAll .lowerCamel (endpoints.map (·.name))
  (endpoints.zip methods).flatMap fun (e, method) => endpointCode s e method

/-- The definition of a declaration, given those of the declarations inside it. -/
def definition
    (s : Schema)
    (id : DeclId)
    (inner : List Code) :
    Code :=
  let d := s.decl id
  let name := definedName s id
  let nested := inner.flatMap (blank ++ ·)
  doc "///" d.doc ++
    match d.body with
    | .type fields | .tuple fields =>
        block s!"public struct {name}: {conformances}"
          (structMembers s d.name fields ++ nested)
    | .interface body =>
        block s!"public indirect enum {name}: {conformances}"
          (interfaceMembers s id body ++ nested)
    | .enum _ members => block s!"public enum {name}: {conformances}" (enumMembers members)
    | .service endpoints => block s!"public protocol {name}" (serviceMembers s endpoints) ++ nested

end Swift
end Target
end Schemata
