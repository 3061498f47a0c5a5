import Schemata.Emit.Backend
import Schemata.Schema.Nesting
import Schemata.Target.CSharpConverter

/-!
# C#: declarations and files

Each outermost declaration has a file of its own.  Types and tuples are
classes, interfaces are abstract classes with a class for each case, enums are
enums and services are interfaces.  What a file needs from libraries is listed
at its top.
-/

namespace Schemata
namespace Target
namespace CSharp

open Code
open Emit (Member)

/-- The mark of a class that is an object in documents. -/
def objectMark : Code :=
  line "[JsonObject(ItemNullValueHandling = NullValueHandling.Ignore)]"

/-- The mark of a class that has a converter. -/
def converterMark
    (path : String) :
    Code :=
  line s!"[JsonConverter(typeof({path}.Json_Net_Converter))]"

/-- The mark of a tagged interface: its tag, and the literal of each case. -/
def taggedMark
    (path tag : String)
    (cases : List SubType) :
    Code :=
  let known := cases.map fun c =>
    s!"[JsonSubtypes.KnownSubType(typeof({path}.{typeIdent c.name}), {Text.literal c.literal})]"
  line (s!"[JsonConverter(typeof(JsonSubtypes), {Text.literal tag})]" ++ String.join known)

/-- Where the tag stands among the properties. -/
def tagOrder : Placement → String
  | .first => "-2"
  | .last => "int.MaxValue"

/-- The tag of an interface and the constructor that sets it. -/
def tagMembers
    (placement : Placement)
    (name tag : String) :
    Code :=
  let key := Text.literal tag
  line s!"[JsonProperty({key}, Required = Required.DisallowNull, Order = {tagOrder placement})]"
    ++ block "private String TypeField" (line "get;")
    ++ blank
    ++ block s!"public {name}(String TypeField)" (line "this.TypeField = TypeField;")

/-- The class of a case. -/
def caseClass
    (s : Schema)
    (home : Nat)
    (name : String)
    (body : InterfaceBody)
    (c : SubType) :
    Code :=
  let caseName := typeIdent c.name
  let baseCall :=
    match body.strategy with
    | .tagged _ => s!" : base({Text.literal c.literal})"
    | .untagged => ""
  blank
    ++ doc "///" c.doc
    ++ objectMark
    ++ block s!"public class {caseName} : {name}"
        (classMembers s home c.name caseName baseCall (body.fieldsOf c))

/-- A member of an enum. -/
def enumMember
    (m : EnumMember)
    (ident : String) :
    Code :=
  doc "///" m.doc ++
    match m.value with
    | .string text =>
        line s!"[EnumMember(Value = {Text.literal text})]" ++ line s!"{ident},"
    | .number value => line s!"{ident} = {value},"

/-- An enum. -/
def enumCode
    (name : String)
    (type : EnumType)
    (ms : List EnumMember) :
    Code :=
  let idents := Naming.Language.csharp.spellAll .upperCamel (ms.map (·.name))
  let body := (ms.zip idents).flatMap fun (m, ident) => enumMember m ident
  if type = .string then
    line "[JsonConverter(typeof(StringEnumConverter))]" ++ block s!"public enum {name}" body
  else block s!"public enum {name} : {primitiveText type.primitive}" body

/-- The type of an argument. -/
def argumentType
    (s : Schema)
    (home : Nat)
    (c : Channel) :
    String :=
  let type := typeText s home c.type
  if c.streaming then s!"IAsyncEnumerable<{type}>" else type

/-- The type of a response. -/
def responseType
    (s : Schema)
    (home : Nat) :
    Option Channel → String
  | none => "Task"
  | some c =>
      let type := typeText s home c.type
      if c.streaming then s!"IAsyncEnumerable<{type}>" else s!"Task<{type}>"

/-- The method of an endpoint. -/
def endpointCode
    (s : Schema)
    (home : Nat)
    (e : Endpoint)
    (method : String) :
    Code :=
  let idents := Naming.Language.csharp.spellAll .lowerCamel (e.arguments.map (·.name))
  let arguments := (e.arguments.zip idents).map fun (a, ident) =>
    s!"{argumentType s home a.channel} {ident}"
  let list := String.intercalate ", " arguments
  doc "///" e.doc ++ line s!"{responseType s home e.response} {method}({list});"

/-- The methods of a service. -/
def serviceMembers
    (s : Schema)
    (home : Nat)
    (endpoints : List Endpoint) :
    Code :=
  let methods := Naming.Language.csharp.spellAll .upperCamel (endpoints.map (·.name))
  (endpoints.zip methods).flatMap fun (e, method) => blank ++ endpointCode s home e method

/-- The code of a declaration, given that of the declarations inside it. -/
def declCode
    (s : Schema)
    (placement : Placement)
    (id : DeclId)
    (inner : List Code) :
    Code :=
  let d := s.decl id
  let name := typeIdent d.name
  let path := classPath s id
  let nested := inner.flatMap (blank ++ ·)
  doc "///" d.doc ++
    match d.body with
    | .type fields =>
        objectMark
          ++ block s!"public class {name}"
              (classMembers s id.package d.name name "" fields ++ nested)
    | .tuple fields =>
        converterMark path
          ++ block s!"public class {name}"
              (classMembers s id.package d.name name "" fields
                ++ blank
                ++ tupleConverter s id.package path fields
                ++ nested)
    | .interface body =>
        let (mark, head) :=
          match body.strategy with
          | .tagged tag => (taggedMark path tag body.subTypes, tagMembers placement name tag)
          | .untagged => (converterMark path, untaggedConverter path body)
        mark
          ++ block s!"public abstract class {name}"
              (head ++ body.subTypes.flatMap (caseClass s id.package name body) ++ nested)
    | .enum type members => enumCode name type members
    | .service endpoints =>
        block s!"public interface {name}" (serviceMembers s id.package endpoints ++ nested)

/-- A declaration has the name of the declaration around it. -/
def namedLikeParent
    (s : Schema)
    (id : DeclId) :
    Bool :=
  match (s.decl id).parent with
  | some parent => ((s.package id.package).decl parent).name == (s.decl id).name
  | none => false

/-- What cannot be expressed in a declaration, apart from what is inside it. -/
def feature?
    (s : Schema)
    (id : DeclId) :
    Option String :=
  if namedLikeParent s id then some "a nested declaration named like its parent"
  else if (s.decl id).body.memberTypes.any (·.hasInlineTuple) then some "inline tuple types"
  else none

/-- The first refusal, each declaration coming before what is inside it. -/
def refusal?
    (s : Schema)
    (root : DeclId) :
    Option Refusal :=
  (s.nesting root).preorder.findSome? fun id => (feature? s id).map (⟨id, ·⟩)

/-- The type is written with a list or a dictionary. -/
def isCollection : TypeRef → Bool
  | .array _ | .map _ _ => true
  | _ => false

/-- The code uses generic collections. -/
def usesCollections : DeclBody → Bool
  | .tuple _ => true
  | .service endpoints =>
      (endpoints.flatMap (·.channels)).any fun c =>
        c.streaming || c.type.parts.any isCollection
  | body => body.memberTypes.any fun type => type.parts.any isCollection

/-- The code compares collections. -/
def comparesCollections
    (s : Schema)
    (body : DeclBody) :
    Bool :=
  body.records.flatten.any fun f =>
    let form := shape s f.type
    form == .sequence || form == .dictionary

/-- An interface with this strategy. -/
def hasStrategy
    (property : Strategy → Bool) :
    DeclBody → Bool
  | .interface body => property body.strategy
  | _ => false

/-- An enum of texts. -/
def isTextEnum : DeclBody → Bool
  | .enum type _ => type == .string
  | _ => false

/-- The libraries that files may need, in the order in which a file lists them, each with the
declarations that need it. -/
def libraries
    (s : Schema) :
    List (String × (DeclBody → Bool)) :=
  [("JsonSubTypes", hasStrategy (· != .untagged)),
   ("Newtonsoft.Json", fun _ => true),
   ("Newtonsoft.Json.Converters", isTextEnum),
   ("Newtonsoft.Json.Linq", fun body =>
     body.kind == "tuple" || hasStrategy (· == .untagged) body),
   ("System", fun _ => true),
   ("System.Collections.Generic", usesCollections),
   ("System.Linq", comparesCollections s),
   ("System.Runtime.Serialization", isTextEnum),
   ("System.Text", fun body => !body.records.isEmpty),
   ("System.Threading.Tasks", fun body => body.kind == "service")]

/-- The libraries that the code of some outermost declarations needs. -/
def usings
    (s : Schema)
    (roots : List DeclId) :
    List String :=
  let bodies := (roots.flatMap s.withDescendants).map fun id => (s.decl id).body
  ((libraries s).filter fun (_, need) => bodies.any need).map (·.1)

/-- Fragments with blank lines between them. -/
def separated : List Fragment → Code
  | [] => []
  | [last] => embed last.text
  | first :: rest => embed first.text ++ blank ++ separated rest

/-- The file of some fragments of one package. -/
def assemble
    (s : Schema)
    (fragments : List Fragment) :
    String :=
  match fragments with
  | [] => ""
  | first :: _ =>
      render "    " <|
        lines ((usings s (fragments.map (·.decl))).map fun name => s!"using {name};")
          ++ blank
          ++ block s!"namespace {namespaceText (s.package first.decl.package)}"
              (separated fragments)

/-- The path of the file of an outermost declaration. -/
def path
    (s : Schema)
    (root : DeclId) :
    List String :=
  segments (s.package root.package) ++ [s!"{typeIdent (s.decl root).name}.cs"]

end CSharp

/-- The writer of C# code. -/
def csharp : Backend :=
  { name := "csharp"
    language := "C#"
    extension := "cs"
    path := CSharp.path
    refusal? := CSharp.refusal?
    text := fun s placement root =>
      Code.render "    " ((s.nesting root).fold (CSharp.declCode s placement))
    assemble := fun s _ fragments => CSharp.assemble s fragments }

end Target
end Schemata
