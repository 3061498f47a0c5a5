import Schemata.Proofs.Resolve.Convert

/-!
# Renaming of packages

Places name packages by number.  Renaming changes these numbers in all the
places that types, fields and declarations refer to, and nothing else.

Nothing that is checked about a declaration looks at the numbers: where names
mean the renamed places, declarations resolve to the renamed ones, with the
very same errors.

**Results.** `Convert.body_rename`, `Convert.entry_rename`.
-/

namespace Schemata

section Rename

variable (σ : Nat → Nat)

/-- A place with its package renamed. -/
def DeclId.rename
    (id : DeclId) :
    DeclId :=
  ⟨σ id.package, id.index⟩

mutual

/-- A type with the packages of its places renamed. -/
def TypeRef.rename : TypeRef → TypeRef
  | .primitive type => .primitive type
  | .decl id => .decl (id.rename σ)
  | .array item => .array (rename item)
  | .map key value => .map (rename key) (rename value)
  | .tuple items => .tuple (renameAll items)

/-- Several types with the packages of their places renamed. -/
def TypeRef.renameAll : List TypeRef → List TypeRef
  | [] => []
  | type :: rest => rename type :: renameAll rest

end

/-- A field with the packages in its type renamed. -/
def Field.rename
    (f : Field) :
    Field :=
  { f with type := f.type.rename σ }

/-- A case with the packages in its fields renamed. -/
def SubType.rename
    (s : SubType) :
    SubType :=
  { s with fields := s.fields.map (Field.rename σ) }

/-- An interface with the packages in its fields renamed. -/
def InterfaceBody.rename
    (body : InterfaceBody) :
    InterfaceBody :=
  { body with
    fields := body.fields.map (Field.rename σ)
    subTypes := body.subTypes.map (SubType.rename σ) }

/-- A channel with the packages in its type renamed. -/
def Channel.rename
    (c : Channel) :
    Channel :=
  { c with type := c.type.rename σ }

/-- An argument with the packages in its type renamed. -/
def Argument.rename
    (a : Argument) :
    Argument :=
  { a with channel := a.channel.rename σ }

/-- An endpoint with the packages in its types renamed. -/
def Endpoint.rename
    (e : Endpoint) :
    Endpoint :=
  { e with
    arguments := e.arguments.map (Argument.rename σ)
    response := e.response.map (Channel.rename σ) }

/-- A body with the packages in its types renamed. -/
def DeclBody.rename : DeclBody → DeclBody
  | .type fields => .type (fields.map (Field.rename σ))
  | .tuple fields => .tuple (fields.map (Field.rename σ))
  | .interface body => .interface (body.rename σ)
  | .enum valueType members => .enum valueType members
  | .service endpoints => .service (endpoints.map (Endpoint.rename σ))

/-- A declaration with its own package and those in its types renamed. -/
def Decl.rename
    (d : Decl) :
    Decl :=
  { d with id := d.id.rename σ, body := d.body.rename σ }

/-- A package with the packages that its declarations refer to renamed. -/
def Package.rename
    (p : Package) :
    Package :=
  { p with decls := p.decls.map (Decl.rename σ) }

theorem TypeRef.renameAll_eq_map
    (items : List TypeRef) :
    TypeRef.renameAll σ items = items.map (TypeRef.rename σ) := by
  induction items with
  | nil =>
      rfl
  | cons item items ih =>
      rw [TypeRef.renameAll, ih, List.map_cons]

@[simp] theorem TypeRef.isKey_rename
    (type : TypeRef) :
    (type.rename σ).isKey = type.isKey := by
  cases type with
  | primitive | decl | array | map | tuple =>
      simp [TypeRef.rename, TypeRef.isKey]

end Rename

/-- Steps with one value and one list of errors are equal. -/
@[ext] theorem Checked.ext
    {α : Type}
    {x y : Checked α}
    (hvalue : x.value = y.value)
    (herrors : x.errors = y.errors) :
    x = y := by
  cases x
  cases y
  rw [Checked.mk.injEq]
  exact ⟨hvalue, herrors⟩

section Checks

variable (σ : Nat → Nat)

theorem InterfaceBody.fieldsOf_rename
    (body : InterfaceBody)
    (s : SubType) :
    (body.rename σ).fieldsOf (s.rename σ) = (body.fieldsOf s).map (Field.rename σ) := by
  simp [InterfaceBody.fieldsOf, InterfaceBody.rename, SubType.rename]

/-- Which fields are optional does not change. -/
theorem filter_optional_rename
    (fields : List Field) :
    (fields.map (Field.rename σ)).filter (·.optional) =
      (fields.filter (·.optional)).map (Field.rename σ) :=
  List.filter_map

namespace Untagged

theorem requiredKeys_rename
    (body : InterfaceBody)
    (s : SubType) :
    requiredKeys (body.rename σ) (s.rename σ) = requiredKeys body s := by
  rw [requiredKeys, InterfaceBody.fieldsOf_rename, List.filter_map, List.map_map]
  rfl

theorem checkPair_rename
    (body : InterfaceBody)
    (earlier later : SubType) :
    checkPair (body.rename σ) (earlier.rename σ) (later.rename σ) =
      checkPair body earlier later := by
  simp only [checkPair, requiredKeys_rename]
  rfl

theorem checkPairs_rename
    (body : InterfaceBody)
    (subTypes : List SubType) :
    checkPairs (body.rename σ) (subTypes.map (SubType.rename σ)) = checkPairs body subTypes := by
  induction subTypes with
  | nil =>
      rfl
  | cons s rest ih =>
      simp only [List.map_cons, checkPairs, ih, List.flatMap_map, checkPair_rename]

theorem requiring?_rename
    (body : InterfaceBody)
    (index : Nat)
    (key : String) :
    requiring? (body.rename σ) index key = (requiring? body index key).map (SubType.rename σ) := by
  simp only [requiring?]
  rw [show (body.rename σ).subTypes = body.subTypes.map (SubType.rename σ) from rfl,
    List.zipIdx_map, List.find?_map, Option.map_map, Option.map_map]
  simp only [Function.comp_def, Prod.map, requiredKeys_rename, id]

theorem checkOptional_rename
    (body : InterfaceBody) :
    checkOptional (body.rename σ) = checkOptional body := by
  simp only [checkOptional]
  rw [show (body.rename σ).subTypes = body.subTypes.map (SubType.rename σ) from rfl,
    List.zipIdx_map, List.flatMap_map]
  simp only [Prod.map, id, InterfaceBody.fieldsOf_rename, filter_optional_rename,
    List.filterMap_map, Function.comp_def, requiring?_rename, Option.map_map]
  rfl

theorem check_rename
    (body : InterfaceBody) :
    check (body.rename σ) = check body := by
  rw [check, checkOptional_rename]
  exact congrArg (· ++ checkOptional body) (checkPairs_rename σ body body.subTypes)

end Untagged

namespace Convert

theorem repeatedFields_rename
    (names jsonNames : Seen)
    (fields : List (Field × Bool)) :
    repeatedFields names jsonNames (fields.map fun x => (x.1.rename σ, x.2)) =
      repeatedFields names jsonNames fields := by
  induction fields generalizing names jsonNames with
  | nil =>
      rfl
  | cons x fields ih =>
      obtain ⟨f, counts⟩ := x
      simp only [List.map_cons, repeatedFields, ih]
      rfl

theorem checkFields_rename
    (fields : List Field) :
    checkFields (fields.map (Field.rename σ)) = checkFields fields := by
  rw [checkFields, checkFields, ← repeatedFields_rename σ [] [] (fields.map (·, true)),
    List.map_map, List.map_map]
  rfl

theorem checkOwnFields_rename
    (shared own : List Field) :
    checkOwnFields (shared.map (Field.rename σ)) (own.map (Field.rename σ)) =
      checkOwnFields shared own := by
  rw [checkOwnFields, checkOwnFields,
    ← repeatedFields_rename σ [] [] (shared.map (·, false) ++ own.map (·, true))]
  simp only [List.map_append, List.map_map]
  rfl

theorem optionalErrors_rename
    (fields : List Field) :
    optionalErrors (fields.map (Field.rename σ)) = optionalErrors fields := by
  rw [optionalErrors, filter_optional_rename, List.map_map]
  rfl

theorem tagConflicts_rename
    (body : InterfaceBody) :
    tagConflicts (body.rename σ) = tagConflicts body := by
  obtain ⟨fields, subTypes, strategy⟩ := body
  cases strategy with
  | untagged =>
      rfl
  | tagged tag =>
      have hall : (subTypes.map (SubType.rename σ)).flatMap (·.fields) =
          (subTypes.flatMap (·.fields)).map (Field.rename σ) := by
        rw [List.flatMap_map, List.map_flatMap]
        rfl
      simp only [tagConflicts, InterfaceBody.rename, hall, ← List.map_append, List.filter_map,
        List.map_map]
      rfl

theorem untaggedErrors_rename
    (body : InterfaceBody) :
    untaggedErrors (body.rename σ) = untaggedErrors body := by
  obtain ⟨fields, subTypes, strategy⟩ := body
  cases strategy with
  | untagged =>
      exact Untagged.check_rename σ ⟨fields, subTypes, .untagged⟩
  | tagged tag =>
      rfl

end Convert
end Checks

namespace Convert

/-- Names mean the renamed places; the rest is the same. -/
structure Context.Renamed
    (σ : Nat → Nat)
    (ctx ctx' : Context) : Prop where
  nameSpan : ctx'.nameSpan = ctx.nameSpan
  defaultTag : ctx'.defaultTag = ctx.defaultTag
  resolve : ∀ name,
    Table.resolve? ctx'.tables ctx'.package ctx'.index name =
      (Table.resolve? ctx.tables ctx.package ctx.index name).map (DeclId.rename σ)

section Steps

variable {σ : Nat → Nat}
variable {ctx ctx' : Context}

theorem type_rename
    (h : ctx.Renamed σ ctx')
    (written : TypeExpr) :
    type ctx' written = TypeRef.rename σ <$> type ctx written := by
  induction written using TypeExpr.memberInduction with
  | primitive p =>
      rw [type_primitive, type_primitive, map_pure, TypeRef.rename]
  | name name =>
      have hname := h.resolve name
      cases hfound : Table.resolve? ctx.tables ctx.package ctx.index name with
      | some id =>
          rw [hfound, Option.map_some] at hname
          rw [type_name_found ctx hfound, type_name_found ctx' hname, map_pure, TypeRef.rename]
      | none =>
          rw [hfound, Option.map_none] at hname
          simp [type, hfound, hname, TypeRef.rename]
  | array item ih =>
      apply Checked.ext
      · simp [ih, TypeRef.rename]
      · simp [ih]
  | map key value ihKey ihValue =>
      have hkey : keyErrors ctx' key = keyErrors ctx key := by
        simp [keyErrors, ihKey, h.nameSpan]
      apply Checked.ext
      · simp [ihKey, ihValue, TypeRef.rename]
      · simp [ihKey, ihValue, hkey]
  | tuple items ih =>
      apply Checked.ext
      · have hvalue : ∀ item ∈ items, (type ctx' item).value =
            ((type ctx item).value).rename σ := by
          intro item hitem
          rw [ih item hitem, Checked.value_map]
        simp only [value_type_tuple, Checked.value_map, TypeRef.rename, TypeRef.renameAll_eq_map,
          List.map_map, TypeRef.tuple.injEq]
        exact List.map_congr_left hvalue
      · simp only [errors_type_tuple, Checked.errors_map]
        refine List.flatMap_congr fun item hitem => ?_
        rw [ih item hitem, Checked.errors_map]

theorem field_rename
    (h : ctx.Renamed σ ctx')
    (f : Tree.Field) :
    field ctx' f = Field.rename σ <$> field ctx f := by
  simp only [field, type_rename h]
  rfl

theorem fields_rename
    (h : ctx.Renamed σ ctx')
    (members : List (Tree.Member Tree.Decl)) :
    fields ctx' members = List.map (Field.rename σ) <$> fields ctx members := by
  apply Checked.ext
  · simp only [value_fields, field_rename h, Checked.value_map, List.map_map, Function.comp_def]
  · simp only [errors_fields, type_rename h, Checked.errors_map]

theorem subTypes_rename
    (h : ctx.Renamed σ ctx')
    (shared : List Field)
    (names literals : Seen)
    (cases : List (Tree.SubType Tree.Decl)) :
    subTypes ctx' (shared.map (Field.rename σ)) names literals cases =
      List.map (SubType.rename σ) <$> subTypes ctx shared names literals cases := by
  induction cases generalizing names literals with
  | nil =>
      rfl
  | cons c rest ih =>
      apply Checked.ext
      · simp only [value_subTypes_cons, laterSubTypes, ih, fields_rename h, Checked.value_map,
          List.map_cons, SubType.rename]
      · simp only [errors_subTypes_cons, laterSubTypes, ih, fields_rename h, Checked.value_map,
          Checked.errors_map, checkOwnFields_rename]

theorem interface_rename
    (h : ctx.Renamed σ ctx')
    (d : Tree.Decl)
    (members : List (Tree.Member Tree.Decl))
    (cases : List (Tree.SubType Tree.Decl)) :
    interface ctx' d members cases = DeclBody.rename σ <$> interface ctx d members cases := by
  have hbody : interfaceBody ctx' d members cases =
      (interfaceBody ctx d members cases).rename σ := by
    simp only [interfaceBody, fields_rename h, subTypes_rename h, Checked.value_map, h.defaultTag,
      InterfaceBody.rename]
  apply Checked.ext
  · rw [value_interface, hbody, Checked.value_map, value_interface, DeclBody.rename]
  · simp only [errors_interface, Checked.errors_map, hbody, tagConflicts_rename,
      untaggedErrors_rename, fields_rename h, subTypes_rename h, Checked.value_map,
      checkFields_rename, h.defaultTag]

theorem channel_rename
    (h : ctx.Renamed σ ctx')
    (c : Tree.Channel) :
    channel ctx' c = Channel.rename σ <$> channel ctx c := by
  simp only [channel, type_rename h]
  rfl

theorem arguments_rename
    (h : ctx.Renamed σ ctx')
    (names : Seen)
    (args : List Tree.EndpointArgument) :
    arguments ctx' names args = List.map (Argument.rename σ) <$> arguments ctx names args := by
  induction args generalizing names with
  | nil =>
      rfl
  | cons a rest ih =>
      apply Checked.ext
      · simp only [value_arguments_cons, ih, channel_rename h, Checked.value_map, List.map_cons,
          Argument.rename]
      · simp only [errors_arguments_cons, ih, channel_rename h, Checked.errors_map]

theorem endpoints_rename
    (h : ctx.Renamed σ ctx')
    (names ids : Seen)
    (written : List Tree.Endpoint) :
    endpoints ctx' names ids written =
      List.map (Endpoint.rename σ) <$> endpoints ctx names ids written := by
  induction written generalizing names ids with
  | nil =>
      rfl
  | cons e rest ih =>
      apply Checked.ext
      · simp only [value_endpoints_cons, ih, arguments_rename h, channel_rename h,
          Checked.value_map, List.map_cons, Endpoint.rename, Option.map_map, Function.comp_def]
      · simp only [errors_endpoints_cons, ih, arguments_rename h, channel_rename h,
          Checked.errors_map]

/-- The body of a declaration resolves to the renamed one, with the same errors. -/
theorem body_rename
    (h : ctx.Renamed σ ctx')
    (d : Tree.Decl) :
    body ctx' d = DeclBody.rename σ <$> body ctx d := by
  cases hbody : d.body with
  | type members =>
      obtain ⟨hvalue, herrors⟩ := body_type ctx hbody
      obtain ⟨hvalue', herrors'⟩ := body_type ctx' hbody
      apply Checked.ext
      · rw [hvalue', fields_rename h, Checked.value_map, Checked.value_map, hvalue,
          DeclBody.rename]
      · rw [herrors', fields_rename h, Checked.errors_map, Checked.value_map, checkFields_rename,
          Checked.errors_map, herrors]
  | tuple members =>
      obtain ⟨hvalue, herrors⟩ := body_tuple ctx hbody
      obtain ⟨hvalue', herrors'⟩ := body_tuple ctx' hbody
      apply Checked.ext
      · rw [hvalue', fields_rename h, Checked.value_map, Checked.value_map, hvalue,
          DeclBody.rename]
      · rw [herrors', fields_rename h, Checked.errors_map, Checked.value_map, checkFields_rename,
          optionalErrors_rename, Checked.errors_map, herrors]
  | interface members cases =>
      obtain ⟨hvalue, herrors⟩ := body_interface ctx hbody
      obtain ⟨hvalue', herrors'⟩ := body_interface ctx' hbody
      apply Checked.ext
      · rw [hvalue', interface_rename h, Checked.value_map, Checked.value_map, hvalue]
      · rw [herrors', interface_rename h, Checked.errors_map, Checked.errors_map, herrors]
  | enum written members =>
      obtain ⟨hvalue, herrors⟩ := body_enum ctx hbody
      obtain ⟨hvalue', herrors'⟩ := body_enum ctx' hbody
      apply Checked.ext
      · rw [hvalue', Checked.value_map, hvalue, enum]
        rfl
      · rw [herrors', Checked.errors_map, herrors]
  | service written decls =>
      obtain ⟨hvalue, herrors⟩ := body_service ctx hbody
      obtain ⟨hvalue', herrors'⟩ := body_service ctx' hbody
      apply Checked.ext
      · rw [hvalue', endpoints_rename h, Checked.value_map, Checked.value_map, hvalue,
          DeclBody.rename]
      · rw [herrors', endpoints_rename h, Checked.errors_map, Checked.errors_map, herrors]

/-- An entry of a renamed package resolves to the renamed declaration, with the same errors, when
all names in the package mean the renamed places. -/
theorem entry_rename
    {tables tables' : List Table}
    {package index : Nat}
    (hresolve : ∀ name,
      Table.resolve? tables' (σ package) index name =
        (Table.resolve? tables package index name).map (DeclId.rename σ))
    (defaultTag : String)
    (e : Entry) :
    entry tables' defaultTag (σ package) index e =
      Decl.rename σ <$> entry tables defaultTag package index e := by
  have hctx : (contextOf tables defaultTag package index e).Renamed σ
      (contextOf tables' defaultTag (σ package) index e) :=
    ⟨rfl, rfl, hresolve⟩
  apply Checked.ext
  · rw [value_entry, body_rename hctx, Checked.value_map, Checked.value_map, value_entry,
      Decl.rename]
    rfl
  · rw [errors_entry, body_rename hctx, Checked.errors_map, Checked.errors_map, errors_entry]

end Steps

end Convert
end Schemata
