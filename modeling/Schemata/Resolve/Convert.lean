import Schemata.Resolve.Table
import Schemata.Resolve.Untagged

/-!
# Resolution of single declarations

Every declaration of the tables becomes a declaration of the schema: names of
types become places, attributes say how the cases of interfaces are shown, and
the rules of each kind of declaration are checked.
-/

namespace Schemata
namespace Convert

/-- Where names are resolved: in a declaration of a package. -/
structure Context where
  tables : List Table
  package : Nat
  index : Nat
  /-- The place of the name of the declaration. -/
  nameSpan : Span
  /-- The tag of interfaces that do not say otherwise. -/
  defaultTag : String

section Types

/-- How messages name a written type. -/
def describe : TypeExpr → String
  | .primitive type => s!"`{type.name}`"
  | .name name => s!"`{name.display}`"
  | .array _ => "an array"
  | .map _ _ => "a map"
  | .tuple _ => "a tuple"

mutual

/-- Resolve a type.  A name that means nothing is an error, and stands for any value. -/
def type
    (ctx : Context) :
    TypeExpr → Checked TypeRef
  | .primitive type => pure (.primitive type)
  | .array item => do return .array (← type ctx item)
  | .map key value => do
      let key' ← type ctx key
      if !key'.isKey then
        Checked.report [.located ctx.nameSpan (.invalidMapKey (describe key))]
      return .map key' (← type ctx value)
  | .tuple items => do return .tuple (← types ctx items)
  | .name name =>
      match Table.resolve? ctx.tables ctx.package ctx.index name with
      | some id => pure (.decl id)
      | none => do
          Checked.report [.located name.span (.unresolvedReference name.display)]
          return .primitive .any

/-- Resolve several types. -/
def types
    (ctx : Context) :
    List TypeExpr → Checked (List TypeRef)
  | [] => pure []
  | item :: rest => do return (← type ctx item) :: (← types ctx rest)

end

end Types

section Fields

/-- Resolve a field. -/
def field
    (ctx : Context)
    (f : Tree.Field) :
    Checked Field := do
  return { name := f.name.value
           jsonName := (f.alias?.map (·.value)).getD f.name.value
           type := ← type ctx f.type.value
           optional := f.optional
           doc := f.doc
           span := f.span }

/-- Resolve the fields among members. -/
def fields
    (ctx : Context)
    (members : List (Tree.Member Tree.Decl)) :
    Checked (List Field) :=
  (Tree.Member.fields members).mapM (field ctx)

/-- The errors of fields that repeat a name or a JSON name.  Each field comes with whether its
errors count. -/
def repeatedFields
    (names jsonNames : Seen) :
    List (Field × Bool) → List ResolveError
  | [] => []
  | (f, counts) :: rest =>
      match names.place? f.name with
      | some previous =>
          let errors := repeatedFields names jsonNames rest
          if counts then
            .repeated f.span previous (.duplicateName "field" f.name) :: errors
          else errors
      | none =>
          let names := names ++ [(f.name, f.span)]
          match jsonNames.place? f.jsonName with
          | some previous =>
              let errors := repeatedFields names jsonNames rest
              if counts then
                .repeated f.span previous (.duplicateJsonName f.jsonName) :: errors
              else errors
          | none => repeatedFields names (jsonNames ++ [(f.jsonName, f.span)]) rest

/-- The errors of fields that repeat each other. -/
def checkFields
    (fields : List Field) :
    List ResolveError :=
  repeatedFields [] [] (fields.map (·, true))

/-- The errors of the own fields of a case that repeat each other or a shared field. -/
def checkOwnFields
    (shared own : List Field) :
    List ResolveError :=
  repeatedFields [] [] (shared.map (·, false) ++ own.map (·, true))

end Fields

section Interfaces

/-- What the arguments of an attribute say. -/
structure TypeInfo where
  strategy : Option String
  tag : Option String

/-- Read an argument of an attribute. -/
def typeInfoArgument
    (info : TypeInfo)
    (arg : Tree.Argument) :
    Checked TypeInfo :=
  match arg.value with
  | none => do
      Checked.report
        [.located arg.name.span (.invalidAttribute s!"`{arg.name.value}` requires a value")]
      return info
  | some value =>
      match value.value with
      | .string text =>
          if arg.name.value = "strategy" then pure { info with strategy := some text }
          else if arg.name.value = "tag" then pure { info with tag := some text }
          else do
            Checked.report
              [.located arg.name.span
                (.invalidAttribute s!"unknown `type_info` argument `{arg.name.value}`")]
            return info
      | other => do
          Checked.report
            [.located value.span
              (.invalidAttribute s!"`{arg.name.value}` expects a string, found {other.kind}")]
          return info

/-- Read the arguments of an attribute. -/
def typeInfoArguments
    (info : TypeInfo) :
    List Tree.Argument → Checked TypeInfo
  | [] => pure info
  | arg :: rest => do
      let info ← typeInfoArgument info arg
      typeInfoArguments info rest

/-- The strategy after an attribute. -/
def strategyOf
    (defaultTag : String)
    (span : Span)
    (before : Strategy)
    (info : TypeInfo) :
    Checked Strategy :=
  match info.strategy with
  | none | some "tagged" => pure (.tagged (info.tag.getD defaultTag))
  | some "untagged" => do
      if info.tag.isSome then
        Checked.report
          [.located span (.invalidAttribute "`tag` only applies to tagged interfaces")]
      return .untagged
  | some other => do
      Checked.report
        [.located span
          (.invalidAttribute s!"unknown strategy `{other}`, expected `tagged` or `untagged`")]
      return before

/-- The strategy that the attributes of an interface say. -/
def strategy
    (defaultTag : String)
    (before : Strategy) :
    List Tree.Attribute → Checked Strategy
  | [] => pure before
  | a :: rest =>
      if a.name.value = "type_info" then do
        let info ← typeInfoArguments ⟨none, none⟩ a.args
        let next ← strategyOf defaultTag a.span before info
        strategy defaultTag next rest
      else do
        Checked.report [.located a.name.span (.unknownAttribute a.name.value)]
        strategy defaultTag before rest

/-- The literal of a case: its name unless it says otherwise. -/
def literal
    (s : Tree.SubType Tree.Decl) :
    Checked String :=
  match s.alias? with
  | none => pure s.name.value
  | some value =>
      match value.value with
      | .string text => pure text
      | other => do
          Checked.report [.located value.span (.invalidDiscriminator other.kind)]
          return s.name.value

/-- The name of a case counts once. -/
def subTypeName
    (names : Seen)
    (s : Tree.SubType Tree.Decl) :
    Checked Seen :=
  match names.place? s.name.value with
  | some previous => do
      Checked.report
        [.repeated s.name.span previous (.duplicateName "sub-type" s.name.value)]
      return names
  | none => pure ((s.name.value, s.name.span) :: names)

/-- The literal of a case counts once. -/
def subTypeLiteral
    (literals : Seen)
    (s : Tree.SubType Tree.Decl)
    (text : String) :
    Checked Seen :=
  match literals.place? text with
  | some previous => do
      Checked.report [.repeated s.name.span previous (.duplicateDiscriminator text)]
      return literals
  | none => pure (literals ++ [(text, s.name.span)])

/-- Resolve the cases of an interface. -/
def subTypes
    (ctx : Context)
    (shared : List Field) :
    Seen → Seen → List (Tree.SubType Tree.Decl) → Checked (List SubType)
  | _, _, [] => pure []
  | names, literals, s :: rest => do
      let names ← subTypeName names s
      let text ← literal s
      let literals ← subTypeLiteral literals s text
      let own ← fields ctx s.members
      Checked.report (checkOwnFields shared own)
      let others ← subTypes ctx shared names literals rest
      return { name := s.name.value
               literal := text
               doc := s.doc
               fields := own
               span := s.span } :: others

/-- The errors of fields that have the tag as their key. -/
def tagConflicts
    (body : InterfaceBody) :
    List ResolveError :=
  match body.strategy with
  | .untagged => []
  | .tagged tag =>
      let all := body.fields ++ body.subTypes.flatMap (·.fields)
      (all.filter (·.jsonName == tag)).map fun f => .located f.span (.tagConflict tag f.name)

/-- The errors of an untagged interface whose cases cannot be told apart. -/
def untaggedErrors
    (body : InterfaceBody) :
    List ResolveError :=
  match body.strategy with
  | .untagged => Untagged.check body
  | .tagged _ => []

/-- Resolve an interface. -/
def interface
    (ctx : Context)
    (d : Tree.Decl)
    (members : List (Tree.Member Tree.Decl))
    (cases : List (Tree.SubType Tree.Decl)) :
    Checked DeclBody := do
  let strategy ← strategy ctx.defaultTag (.tagged ctx.defaultTag) d.attributes
  let shared ← fields ctx members
  Checked.report (checkFields shared)
  let nested := d.body.nested.map fun n => (n.name.value, n.name.span)
  let cases ← subTypes ctx shared nested.reverse [] cases
  let body : InterfaceBody := { fields := shared, subTypes := cases, strategy }
  Checked.report (tagConflicts body)
  Checked.report (untaggedErrors body)
  return .interface body

end Interfaces

section Enums

/-- The type of the values of an enum. -/
def enumType : Option (Located TypeExpr) → Checked EnumType
  | none => pure .string
  | some written =>
      match written.value with
      | .primitive .string => pure .string
      | .primitive .u32 => pure .u32
      | .primitive .u64 => pure .u64
      | .primitive .i32 => pure .i32
      | .primitive .i64 => pure .i64
      | other => do
          Checked.report [.located written.span (.invalidEnumType (describe other))]
          return .string

/-- The value of a member of an enum, or the message and the place of its error. -/
def enumValue
    (type : EnumType)
    (m : Tree.EnumMember) :
    Except (String × Span) EnumValue :=
  match m.value with
  | none =>
      match type with
      | .string => .ok (.string m.name.value)
      | _ => .error (s!"`{type.name}` enums need an explicit value", m.span)
  | some value =>
      match value.value, type.range? with
      | .string text, none => .ok (.string text)
      | .number (.integer n), some (least, greatest) =>
          if least ≤ n ∧ n ≤ greatest then .ok (.number n)
          else .error (s!"{n} is out of range for `{type.name}`", value.span)
      | .number (.float d), some _ =>
          .error (s!"expected an integer, found {d.display}", value.span)
      | other, _ =>
          .error (s!"expected a `{type.name}` value, found {other.kind}", value.span)

/-- Resolve the members of an enum; `values` are the values before, with their places. -/
def enumMembers
    (type : EnumType) :
    Seen → List (EnumValue × Span) → List Tree.EnumMember → Checked (List EnumMember)
  | _, _, [] => pure []
  | names, values, m :: rest => do
      Checked.report (repeatedNames "enum member" names [m.name])
      let names := names ++ [(m.name.value, m.name.span)]
      match enumValue type m with
      | .error (message, span) =>
          Checked.report [.located span (.invalidEnumValue m.name.value message)]
          enumMembers type names values rest
      | .ok value =>
          match values.lookup value with
          | some previous =>
              Checked.report [.repeated m.span previous (.duplicateEnumValue value.display)]
              enumMembers type names values rest
          | none =>
              let others ← enumMembers type names (values ++ [(value, m.span)]) rest
              return { name := m.name.value, value, doc := m.doc, span := m.span } :: others

/-- Resolve an enum. -/
def enum
    (written : Option (Located TypeExpr))
    (members : List Tree.EnumMember) :
    Checked DeclBody := do
  let type ← enumType written
  return .enum type (← enumMembers type [] [] members)

end Enums

section Services

/-- Resolve a channel. -/
def channel
    (ctx : Context)
    (c : Tree.Channel) :
    Checked Channel := do
  return { type := ← type ctx c.type.value, streaming := c.streaming }

/-- Resolve the arguments of an endpoint. -/
def arguments
    (ctx : Context) :
    Seen → List Tree.EndpointArgument → Checked (List Argument)
  | _, [] => pure []
  | names, a :: rest => do
      Checked.report (repeatedNames "argument" names [a.name])
      let resolved ← channel ctx a.channel
      let others ← arguments ctx (names ++ [(a.name.value, a.name.span)]) rest
      return { name := a.name.value, channel := resolved } :: others

/-- The errors of an endpoint whose id repeats an earlier one. -/
def repeatedId
    (ids : Seen)
    (id : String)
    (span : Span) :
    List ResolveError :=
  match ids.place? id with
  | some previous => [.repeated span previous (.duplicateName "endpoint id" id)]
  | none => []

/-- Resolve the endpoints of a service. -/
def endpoints
    (ctx : Context) :
    Seen → Seen → List Tree.Endpoint → Checked (List Endpoint)
  | _, _, [] => pure []
  | names, ids, e :: rest => do
      Checked.report (repeatedNames "endpoint" names [e.name])
      let id := (e.alias?.map (·.value)).getD e.name.value
      Checked.report (repeatedId ids id e.span)
      let args ← arguments ctx [] e.arguments
      let response ← e.response.mapM (channel ctx)
      let others ← endpoints ctx (names ++ [(e.name.value, e.name.span)])
        (ids ++ [(id, e.span)]) rest
      return { name := e.name.value
               id
               doc := e.doc
               arguments := args
               response
               span := e.span } :: others

end Services

/-- The errors of attributes on a declaration that takes none. -/
def unknownAttributes
    (d : Tree.Decl) :
    List ResolveError :=
  match d.body with
  | .interface _ _ => []
  | _ => d.attributes.map fun a => .located a.name.span (.unknownAttribute a.name.value)

/-- Resolve the body of a declaration. -/
def body
    (ctx : Context)
    (d : Tree.Decl) :
    Checked DeclBody := do
  Checked.report (unknownAttributes d)
  match d.body with
  | .type members =>
      let fields ← fields ctx members
      Checked.report (checkFields fields)
      return .type fields
  | .tuple members =>
      let fields ← fields ctx members
      Checked.report (checkFields fields)
      Checked.report ((fields.filter (·.optional)).map fun f =>
        .located f.span (.optionalTupleField f.name))
      return .tuple fields
  | .interface members cases => interface ctx d members cases
  | .enum written members => enum written members
  | .service written _ => return .service (← endpoints ctx [] [] written)

/-- Resolve an entry of a table. -/
def entry
    (tables : List Table)
    (defaultTag : String)
    (package index : Nat)
    (e : Entry) :
    Checked Decl := do
  let ctx : Context :=
    { tables, package, index, nameSpan := e.decl.name.span, defaultTag }
  return { id := ⟨package, index⟩
           name := e.name
           doc := e.decl.doc
           parent := e.parent
           children := e.children
           body := ← body ctx e.decl
           span := e.decl.span }

end Convert
end Schemata
