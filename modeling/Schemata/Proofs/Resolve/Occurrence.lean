import Schemata.Proofs.Resolve.Local

/-!
# Occurrences of types and names

A declaration is written with types at certain places: the fields, those of
the cases of an interface included, and the arguments and responses of
endpoints.  `typed` lists them, once for declarations as they are written and
once for resolved ones.

Resolving a declaration keeps the places and resolves the type at each, and
its errors that are not local are exactly those of these types, in their order.
Among them are the references that it reports as unresolved.

**Results.** `typed_body`, `filter_body`, `references_body`.
-/

namespace Schemata

/-- A place where a declaration is written with a type. -/
inductive TypePlace where
  | field (name : String)
  | caseField (subType name : String)
  | argument (endpoint name : String)
  | response (endpoint : String)
deriving DecidableEq, Repr

/-- The types that a body is written with, each with its place. -/
def Tree.Body.typed : Tree.Body Tree.Decl → List (TypePlace × TypeExpr)
  | .type members | .tuple members =>
      (Member.fields members).map fun f => (.field f.name.value, f.type.value)
  | .interface members subTypes =>
      (Member.fields members).map (fun f => (.field f.name.value, f.type.value)) ++
        subTypes.flatMap fun c =>
          (Member.fields c.members).map fun f =>
            (.caseField c.name.value f.name.value, f.type.value)
  | .enum _ _ => []
  | .service endpoints _ =>
      endpoints.flatMap fun e =>
        e.arguments.map (fun a => (.argument e.name.value a.name.value, a.channel.type.value)) ++
          e.response.toList.map fun c => (.response e.name.value, c.type.value)

/-- The types of a resolved body, each with its place. -/
def DeclBody.typed : DeclBody → List (TypePlace × TypeRef)
  | type fields | tuple fields => fields.map fun f => (.field f.name, f.type)
  | interface body =>
      body.fields.map (fun f => (.field f.name, f.type)) ++
        body.subTypes.flatMap fun c =>
          c.fields.map fun f => (.caseField c.name f.name, f.type)
  | enum _ _ => []
  | service endpoints =>
      endpoints.flatMap fun e =>
        e.arguments.map (fun a => (.argument e.name a.name, a.channel.type)) ++
          e.response.toList.map fun c => (.response e.name, c.type)

mutual

/-- The names in a written type, in their order. -/
def TypeExpr.names : TypeExpr → List TypeName
  | .primitive _ => []
  | .name written => [written]
  | .array item => names item
  | .map key value => names key ++ names value
  | .tuple items => namesList items

/-- The names in several written types. -/
def TypeExpr.namesList : List TypeExpr → List TypeName
  | [] => []
  | item :: rest => names item ++ namesList rest

end

theorem TypeExpr.namesList_eq_flatMap
    (items : List TypeExpr) :
    TypeExpr.namesList items = items.flatMap TypeExpr.names := by
  induction items with
  | nil =>
      rw [TypeExpr.namesList, List.flatMap_nil]
  | cons item items ih =>
      rw [TypeExpr.namesList, ih, List.flatMap_cons]

/-- The error is a reference to a declaration that does not exist. -/
def ResolveError.isReference
    (e : ResolveError) :
    Bool :=
  match e.problem with
  | .unresolvedReference _ => true
  | _ => false

/-- The error of a name that means nothing. -/
def TypeName.error
    (name : TypeName) :
    ResolveError :=
  .located name.span (.unresolvedReference name.display)

namespace Convert

variable (ctx : Context)

section Places

theorem typed_subTypes
    (shared : List Field)
    (names literals : Seen)
    (cases : List (Tree.SubType Tree.Decl)) :
    ((subTypes ctx shared names literals cases).value.flatMap fun c =>
        c.fields.map fun f => (TypePlace.caseField c.name f.name, f.type)) =
      (cases.flatMap fun c =>
        (Tree.Member.fields c.members).map fun f =>
          (TypePlace.caseField c.name.value f.name.value, f.type.value)).map fun x =>
        (x.1, (type ctx x.2).value) := by
  induction cases generalizing names literals with
  | nil =>
      rfl
  | cons c cases ih =>
      rw [value_subTypes_cons, List.flatMap_cons, List.flatMap_cons, List.map_append]
      rw [laterSubTypes, ih]
      simp [Function.comp_def]

theorem typed_arguments
    (endpoint : String)
    (names : Seen)
    (args : List Tree.EndpointArgument) :
    ((arguments ctx names args).value.map fun a =>
        (TypePlace.argument endpoint a.name, a.channel.type)) =
      args.map fun a =>
        (TypePlace.argument endpoint a.name.value, (type ctx a.channel.type.value).value) := by
  induction args generalizing names with
  | nil =>
      rfl
  | cons a args ih =>
      rw [value_arguments_cons, List.map_cons, List.map_cons, ih]
      rfl

theorem typed_endpoints
    (names ids : Seen)
    (written : List Tree.Endpoint) :
    (DeclBody.service (endpoints ctx names ids written).value).typed =
      (Tree.Body.service written []).typed.map fun x => (x.1, (type ctx x.2).value) := by
  simp only [DeclBody.typed, Tree.Body.typed]
  induction written generalizing names ids with
  | nil =>
      rfl
  | cons e written ih =>
      rw [value_endpoints_cons, List.flatMap_cons, List.flatMap_cons, List.map_append, ih]
      congr 1
      cases hresponse : e.response with
      | none =>
          simp [typed_arguments]
      | some c =>
          simp [typed_arguments]

/-- Resolving a declaration resolves the type at each of its places. -/
theorem typed_body
    (d : Tree.Decl) :
    (body ctx d).value.typed = d.body.typed.map fun x => (x.1, (type ctx x.2).value) := by
  cases hbody : d.body with
  | type members =>
      rw [(body_type ctx hbody).1]
      simp [DeclBody.typed, Tree.Body.typed, Function.comp_def]
  | tuple members =>
      rw [(body_tuple ctx hbody).1]
      simp [DeclBody.typed, Tree.Body.typed, Function.comp_def]
  | interface members cases =>
      rw [(body_interface ctx hbody).1, value_interface]
      simp only [DeclBody.typed, Tree.Body.typed, interfaceBody, typed_subTypes, List.map_append]
      simp [Function.comp_def]
  | enum written members =>
      rw [(body_enum ctx hbody).1]
      rfl
  | service written decls =>
      rw [(body_service ctx hbody).1]
      exact typed_endpoints ctx [] [] written

end Places

section References

/-- The errors that are references to declarations that do not exist. -/
def references
    (errors : List ResolveError) :
    List ResolveError :=
  errors.filter (·.isReference)

@[simp] theorem references_nil :
    references [] = [] :=
  rfl

@[simp] theorem references_append
    (first second : List ResolveError) :
    references (first ++ second) = references first ++ references second :=
  List.filter_append first second

@[simp] theorem references_flatMap
    {α : Type}
    (xs : List α)
    (f : α → List ResolveError) :
    references (xs.flatMap f) = xs.flatMap fun x => references (f x) :=
  List.filter_flatMap

theorem isReference_of_isLocal
    (e : ResolveError)
    (h : e.isLocal = true) :
    e.isReference = false := by
  obtain ⟨problem, span, previous⟩ := e
  cases problem <;> first | rfl | cases h

/-- A type reports those of its names that are not found. -/
theorem references_type
    (written : TypeExpr) :
    references (type ctx written).errors =
      (written.names.filter fun name =>
        (Table.resolve? ctx.tables ctx.package ctx.index name).isNone).map TypeName.error := by
  induction written using TypeExpr.memberInduction with
  | primitive p =>
      simp [TypeExpr.names]
  | name written =>
      cases hfound : Table.resolve? ctx.tables ctx.package ctx.index written with
      | none =>
          rw [errors_type_name_missing ctx hfound]
          simp [TypeExpr.names, hfound, references, TypeName.error, ResolveError.isReference,
            ResolveError.located]
      | some id =>
          rw [type_name_found ctx hfound]
          simp [TypeExpr.names, hfound]
  | array item ih =>
      rw [errors_type_array, TypeExpr.names]
      exact ih
  | map key value ihKey ihValue =>
      have hkeys : references (keyErrors ctx key) = [] :=
        (allLocal_keyErrors ctx key).filter_eq_nil isReference_of_isLocal
      rw [errors_type_map, TypeExpr.names, references_append, references_append, hkeys, ihKey,
        ihValue]
      simp
  | tuple items ih =>
      rw [errors_type_tuple, TypeExpr.names, TypeExpr.namesList_eq_flatMap, references_flatMap,
        List.filter_flatMap, List.map_flatMap]
      exact List.flatMap_congr ih

end References

section Bodies

variable {p : ResolveError → Bool}
variable (hp : ∀ e, e.isLocal = true → p e = false)

include hp

theorem filter_subTypes
    (shared : List Field)
    (names literals : Seen)
    (cases : List (Tree.SubType Tree.Decl)) :
    (subTypes ctx shared names literals cases).errors.filter p =
      cases.flatMap fun c =>
        (Tree.Member.fields c.members).flatMap fun f =>
          (type ctx f.type.value).errors.filter p := by
  induction cases generalizing names literals with
  | nil =>
      rfl
  | cons c cases ih =>
      have hname := (allLocal_subTypeName names c).filter_eq_nil hp
      have hliteral := (allLocal_literal c).filter_eq_nil hp
      have hliterals := (allLocal_subTypeLiteral literals c (literal c).value).filter_eq_nil hp
      have hown : (checkOwnFields shared (fields ctx c.members).value).filter p = [] :=
        (allLocal_repeatedFields _ _ _).filter_eq_nil hp
      rw [errors_subTypes_cons, List.flatMap_cons, laterSubTypes]
      simp only [List.filter_append, hname, hliteral, hliterals, hown, ih, errors_fields,
        List.filter_flatMap, List.nil_append, List.append_nil]

theorem filter_arguments
    (names : Seen)
    (args : List Tree.EndpointArgument) :
    (arguments ctx names args).errors.filter p =
      args.flatMap fun a => (type ctx a.channel.type.value).errors.filter p := by
  induction args generalizing names with
  | nil =>
      rfl
  | cons a args ih =>
      have hname := (allLocal_repeatedNames "argument" names [a.name]).filter_eq_nil hp
      rw [errors_arguments_cons, List.flatMap_cons]
      simp only [List.filter_append, hname, ih, errors_channel, List.nil_append]

theorem filter_endpoints
    (names ids : Seen)
    (written : List Tree.Endpoint) :
    (endpoints ctx names ids written).errors.filter p =
      written.flatMap fun e =>
        (e.arguments.flatMap fun a => (type ctx a.channel.type.value).errors.filter p) ++
          e.response.toList.flatMap fun c => (type ctx c.type.value).errors.filter p := by
  induction written generalizing names ids with
  | nil =>
      rfl
  | cons e written ih =>
      have hname := (allLocal_repeatedNames "endpoint" names [e.name]).filter_eq_nil hp
      have hid := (allLocal_repeatedId ids (endpointId e) e.span).filter_eq_nil hp
      rw [errors_endpoints_cons, List.flatMap_cons]
      simp only [List.filter_append, hname, hid, filter_arguments ctx hp, ih, errors_channel,
        List.filter_flatMap, List.nil_append]

/-- The errors of a declaration that are not local are those of the types that it is written
with. -/
theorem filter_body
    (d : Tree.Decl) :
    (body ctx d).errors.filter p =
      d.body.typed.flatMap fun x => (type ctx x.2).errors.filter p := by
  have hunknown := (allLocal_unknownAttributes d).filter_eq_nil hp
  have hfields : ∀ fields, (checkFields fields).filter p = [] :=
    fun fields => (allLocal_repeatedFields _ _ _).filter_eq_nil hp
  cases hbody : d.body with
  | type members =>
      rw [(body_type ctx hbody).2]
      simp only [List.filter_append, hunknown, hfields, errors_fields, List.filter_flatMap,
        Tree.Body.typed, List.flatMap_map, List.nil_append, List.append_nil]
  | tuple members =>
      have hoptional := (allLocal_optionalErrors (fields ctx members).value).filter_eq_nil hp
      rw [(body_tuple ctx hbody).2]
      simp only [List.filter_append, hunknown, hfields, hoptional, errors_fields,
        List.filter_flatMap, Tree.Body.typed, List.flatMap_map, List.nil_append, List.append_nil]
  | interface members cases =>
      have hstrategy := (allLocal_strategy ctx.defaultTag (.tagged ctx.defaultTag)
        d.attributes).filter_eq_nil hp
      have htags := (allLocal_tagConflicts (interfaceBody ctx d members cases)).filter_eq_nil hp
      have huntagged :=
        (allLocal_untaggedErrors (interfaceBody ctx d members cases)).filter_eq_nil hp
      rw [(body_interface ctx hbody).2, errors_interface]
      simp only [List.filter_append, hunknown, hstrategy, hfields, htags, huntagged,
        filter_subTypes ctx hp, errors_fields, List.filter_flatMap, Tree.Body.typed,
        List.flatMap_append, List.flatMap_map, List.flatMap_assoc, List.nil_append,
        List.append_nil]
  | enum written members =>
      rw [(body_enum ctx hbody).2, List.filter_append, hunknown,
        (allLocal_enum written members).filter_eq_nil hp]
      rfl
  | service written decls =>
      rw [(body_service ctx hbody).2, List.filter_append, hunknown, filter_endpoints ctx hp]
      simp [Tree.Body.typed, List.flatMap_map, List.flatMap_assoc]

end Bodies

/-- The unresolved references of a declaration are those of the types that it is written with. -/
theorem references_body
    (d : Tree.Decl) :
    references (body ctx d).errors =
      d.body.typed.flatMap fun x => references (type ctx x.2).errors :=
  filter_body ctx isReference_of_isLocal d

end Convert
end Schemata
