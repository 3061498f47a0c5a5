import Schemata.Resolve.Convert
import Schemata.Proofs.Resolve.Checked

/-!
# Values and errors of resolved declarations

One equation for the value and one for the errors of each step of the
resolution of a declaration.  Later modules argue about these equations and
leave the steps themselves closed.  What they say of types they prove by
`TypeExpr.memberInduction`.
-/

namespace Schemata

mutual

/-- Induction on written types, with a hypothesis for each member of a tuple. -/
@[elab_as_elim]
theorem TypeExpr.memberInduction
    {motive : TypeExpr → Prop}
    (primitive : ∀ p, motive (.primitive p))
    (name : ∀ written, motive (.name written))
    (array : ∀ item, motive item → motive (.array item))
    (map : ∀ key value, motive key → motive value → motive (.map key value))
    (tuple : ∀ items, (∀ item ∈ items, motive item) → motive (.tuple items)) :
    ∀ written, motive written
  | .primitive p => primitive p
  | .name written => name written
  | .array item => array item (memberInduction primitive name array map tuple item)
  | .map key value =>
      map key value (memberInduction primitive name array map tuple key)
        (memberInduction primitive name array map tuple value)
  | .tuple items => tuple items (membersInduction primitive name array map tuple items)

theorem TypeExpr.membersInduction
    {motive : TypeExpr → Prop}
    (primitive : ∀ p, motive (.primitive p))
    (name : ∀ written, motive (.name written))
    (array : ∀ item, motive item → motive (.array item))
    (map : ∀ key value, motive key → motive value → motive (.map key value))
    (tuple : ∀ items, (∀ item ∈ items, motive item) → motive (.tuple items)) :
    ∀ items : List TypeExpr, ∀ item ∈ items, motive item
  | [], _, hmem => by
      simp at hmem
  | first :: rest, item, hmem => by
      rcases List.mem_cons.mp hmem with heq | hmem
      · rw [heq]
        exact memberInduction primitive name array map tuple first
      · exact membersInduction primitive name array map tuple rest item hmem

end

namespace Convert

variable (ctx : Context)

section Types

@[simp] theorem type_primitive
    (p : Primitive) :
    type ctx (.primitive p) = pure (.primitive p) :=
  rfl

theorem type_array
    (item : TypeExpr) :
    type ctx (.array item) = (do return .array (← type ctx item)) :=
  rfl

theorem type_map
    (key value : TypeExpr) :
    type ctx (.map key value) = (do
      let key' ← type ctx key
      if !key'.isKey then
        Checked.report [.located ctx.nameSpan (.invalidMapKey (describe key))]
      return .map key' (← type ctx value)) :=
  rfl

theorem type_tuple
    (items : List TypeExpr) :
    type ctx (.tuple items) = (do return .tuple (← types ctx items)) :=
  rfl

@[simp] theorem value_type_array
    (item : TypeExpr) :
    (type ctx (.array item)).value = .array (type ctx item).value := by
  rw [type_array]
  simp

@[simp] theorem errors_type_array
    (item : TypeExpr) :
    (type ctx (.array item)).errors = (type ctx item).errors := by
  rw [type_array]
  simp

/-- The error of a map whose keys are neither strings nor whole numbers. -/
def keyErrors
    (key : TypeExpr) :
    List ResolveError :=
  if (type ctx key).value.isKey then []
  else [.located ctx.nameSpan (.invalidMapKey (describe key))]

@[simp] theorem value_type_map
    (key value : TypeExpr) :
    (type ctx (.map key value)).value =
      .map (type ctx key).value (type ctx value).value := by
  rw [type_map]
  by_cases hkey : (type ctx key).value.isKey = true
  · simp [hkey]
  · simp [hkey]

@[simp] theorem errors_type_map
    (key value : TypeExpr) :
    (type ctx (.map key value)).errors =
      (type ctx key).errors ++ keyErrors ctx key ++ (type ctx value).errors := by
  rw [type_map]
  by_cases hkey : (type ctx key).value.isKey = true
  · simp [hkey, keyErrors]
  · simp [hkey, keyErrors]

theorem types_eq_mapM
    (items : List TypeExpr) :
    types ctx items = items.mapM (type ctx) := by
  induction items with
  | nil =>
      rw [types, List.mapM_nil]
  | cons item items ih =>
      rw [types, ih, List.mapM_cons]

@[simp] theorem value_type_tuple
    (items : List TypeExpr) :
    (type ctx (.tuple items)).value = .tuple (items.map fun item => (type ctx item).value) := by
  rw [type_tuple, types_eq_mapM]
  simp

@[simp] theorem errors_type_tuple
    (items : List TypeExpr) :
    (type ctx (.tuple items)).errors = items.flatMap fun item => (type ctx item).errors := by
  rw [type_tuple, types_eq_mapM]
  simp

theorem type_name_found
    {name : TypeName}
    {id : DeclId}
    (h : Table.resolve? ctx.tables ctx.package ctx.index name = some id) :
    type ctx (.name name) = pure (.decl id) := by
  rw [type, h]

theorem errors_type_name_missing
    {name : TypeName}
    (h : Table.resolve? ctx.tables ctx.package ctx.index name = none) :
    (type ctx (.name name)).errors =
      [.located name.span (.unresolvedReference name.display)] := by
  rw [type, h]
  simp

end Types

section Fields

@[simp] theorem value_field
    (f : Tree.Field) :
    (field ctx f).value =
      { name := f.name.value
        jsonName := (f.alias?.map (·.value)).getD f.name.value
        type := (type ctx f.type.value).value
        optional := f.optional
        doc := f.doc
        span := f.span } :=
  rfl

@[simp] theorem errors_field
    (f : Tree.Field) :
    (field ctx f).errors = (type ctx f.type.value).errors := by
  simp [field]

@[simp] theorem value_fields
    (members : List (Tree.Member Tree.Decl)) :
    (fields ctx members).value = (Tree.Member.fields members).map fun f => (field ctx f).value := by
  simp only [fields, Checked.value_mapM]

@[simp] theorem errors_fields
    (members : List (Tree.Member Tree.Decl)) :
    (fields ctx members).errors =
      (Tree.Member.fields members).flatMap fun f => (type ctx f.type.value).errors := by
  simp only [fields, Checked.errors_mapM, errors_field]

end Fields

section Interfaces

variable (shared : List Field)
variable (names literals : Seen)
variable (c : Tree.SubType Tree.Decl)
variable (rest : List (Tree.SubType Tree.Decl))

/-- The cases after one case. -/
def laterSubTypes :
    Checked (List SubType) :=
  subTypes ctx shared (subTypeName names c).value
    (subTypeLiteral literals c (literal c).value).value rest

theorem value_subTypes_cons :
    (subTypes ctx shared names literals (c :: rest)).value =
      { name := c.name.value
        literal := (literal c).value
        doc := c.doc
        fields := (fields ctx c.members).value
        span := c.span } :: (laterSubTypes ctx shared names literals c rest).value := by
  simp [subTypes, laterSubTypes]

theorem errors_subTypes_cons :
    (subTypes ctx shared names literals (c :: rest)).errors =
      (subTypeName names c).errors ++ (literal c).errors ++
        (subTypeLiteral literals c (literal c).value).errors ++
        (fields ctx c.members).errors ++
        checkOwnFields shared (fields ctx c.members).value ++
        (laterSubTypes ctx shared names literals c rest).errors := by
  simp [subTypes, laterSubTypes]

variable (d : Tree.Decl)
variable (members : List (Tree.Member Tree.Decl))
variable (cases : List (Tree.SubType Tree.Decl))

/-- The names that the cases of an interface may not have: those of the declarations inside. -/
def nestedNames :
    Seen :=
  (d.body.nested.map fun n => (n.name.value, n.name.span)).reverse

/-- The body that an interface resolves to. -/
def interfaceBody :
    InterfaceBody :=
  { fields := (fields ctx members).value
    subTypes := (subTypes ctx (fields ctx members).value (nestedNames d) [] cases).value
    strategy := (strategy ctx.defaultTag (.tagged ctx.defaultTag) d.attributes).value }

theorem value_interface :
    (interface ctx d members cases).value = .interface (interfaceBody ctx d members cases) :=
  rfl

theorem errors_interface :
    (interface ctx d members cases).errors =
      (strategy ctx.defaultTag (.tagged ctx.defaultTag) d.attributes).errors ++
        (fields ctx members).errors ++
        checkFields (fields ctx members).value ++
        (subTypes ctx (fields ctx members).value (nestedNames d) [] cases).errors ++
        tagConflicts (interfaceBody ctx d members cases) ++
        untaggedErrors (interfaceBody ctx d members cases) := by
  simp [interface, interfaceBody, nestedNames]

end Interfaces

section Enums

/-- What a member of an enum without errors is, and what comes after it. -/
theorem enumMembers_cons_clean
    {valueType : EnumType}
    {names : Seen}
    {values : List (EnumValue × Span)}
    {m : Tree.EnumMember}
    {rest : List Tree.EnumMember}
    (h : (enumMembers valueType names values (m :: rest)).errors = []) :
    ∃ value, enumValue valueType m = .ok value ∧
      names.lookup m.name.value = none ∧ values.lookup value = none ∧
      (enumMembers valueType (names ++ [(m.name.value, m.name.span)])
        (values ++ [(value, m.span)]) rest).errors = [] ∧
      (enumMembers valueType names values (m :: rest)).value =
        { name := m.name.value, value, doc := m.doc, span := m.span } ::
          (enumMembers valueType (names ++ [(m.name.value, m.name.span)])
            (values ++ [(value, m.span)]) rest).value := by
  rw [enumMembers] at h ⊢
  simp only [Checked.errors_bind, Checked.errors_report, List.append_eq_nil_iff] at h
  obtain ⟨hname, hrest⟩ := h
  have hnew := repeatedNames_singleton_eq_nil hname
  cases hvalue : enumValue valueType m with
  | error e =>
      simp [hvalue] at hrest
  | ok value =>
      cases hlookup : values.lookup value with
      | some previous =>
          simp [hvalue, hlookup] at hrest
      | none =>
          refine ⟨value, rfl, hnew, hlookup, ?_, ?_⟩
          · simpa [hvalue, hlookup] using hrest
          · simp [hlookup]

end Enums

section Services

@[simp] theorem value_channel
    (c : Tree.Channel) :
    (channel ctx c).value = ⟨(type ctx c.type.value).value, c.streaming⟩ :=
  rfl

@[simp] theorem errors_channel
    (c : Tree.Channel) :
    (channel ctx c).errors = (type ctx c.type.value).errors := by
  simp [channel]

theorem value_arguments_cons
    (names : Seen)
    (a : Tree.EndpointArgument)
    (rest : List Tree.EndpointArgument) :
    (arguments ctx names (a :: rest)).value =
      { name := a.name.value, channel := (channel ctx a.channel).value } ::
        (arguments ctx (names ++ [(a.name.value, a.name.span)]) rest).value := by
  simp [arguments]

theorem errors_arguments_cons
    (names : Seen)
    (a : Tree.EndpointArgument)
    (rest : List Tree.EndpointArgument) :
    (arguments ctx names (a :: rest)).errors =
      repeatedNames "argument" names [a.name] ++ (channel ctx a.channel).errors ++
        (arguments ctx (names ++ [(a.name.value, a.name.span)]) rest).errors := by
  simp [arguments]

/-- The id of an endpoint: its name unless it says otherwise. -/
def endpointId
    (e : Tree.Endpoint) :
    String :=
  (e.alias?.map (·.value)).getD e.name.value

theorem value_endpoints_cons
    (names ids : Seen)
    (e : Tree.Endpoint)
    (rest : List Tree.Endpoint) :
    (endpoints ctx names ids (e :: rest)).value =
      { name := e.name.value
        id := endpointId e
        doc := e.doc
        arguments := (arguments ctx [] e.arguments).value
        response := e.response.map fun c => (channel ctx c).value
        span := e.span } ::
        (endpoints ctx (names ++ [(e.name.value, e.name.span)])
          (ids ++ [(endpointId e, e.span)]) rest).value := by
  simp [endpoints, endpointId]

theorem errors_endpoints_cons
    (names ids : Seen)
    (e : Tree.Endpoint)
    (rest : List Tree.Endpoint) :
    (endpoints ctx names ids (e :: rest)).errors =
      repeatedNames "endpoint" names [e.name] ++ repeatedId ids (endpointId e) e.span ++
        (arguments ctx [] e.arguments).errors ++
        (e.response.toList.flatMap fun c => (channel ctx c).errors) ++
        (endpoints ctx (names ++ [(e.name.value, e.name.span)])
          (ids ++ [(endpointId e, e.span)]) rest).errors := by
  simp [endpoints, endpointId]

end Services

section Bodies

variable {d : Tree.Decl}

theorem body_type
    {members : List (Tree.Member Tree.Decl)}
    (h : d.body = .type members) :
    (body ctx d).value = .type (fields ctx members).value ∧
      (body ctx d).errors =
        unknownAttributes d ++ (fields ctx members).errors ++
          checkFields (fields ctx members).value := by
  simp [body, h]

/-- The errors of a tuple with optional fields. -/
def optionalErrors
    (fields : List Field) :
    List ResolveError :=
  (fields.filter (·.optional)).map fun f => .located f.span (.optionalTupleField f.name)

theorem body_tuple
    {members : List (Tree.Member Tree.Decl)}
    (h : d.body = .tuple members) :
    (body ctx d).value = .tuple (fields ctx members).value ∧
      (body ctx d).errors =
        unknownAttributes d ++ (fields ctx members).errors ++
          checkFields (fields ctx members).value ++
          optionalErrors (fields ctx members).value := by
  simp [body, h, optionalErrors]

theorem body_interface
    {members : List (Tree.Member Tree.Decl)}
    {cases : List (Tree.SubType Tree.Decl)}
    (h : d.body = .interface members cases) :
    (body ctx d).value = (interface ctx d members cases).value ∧
      (body ctx d).errors = unknownAttributes d ++ (interface ctx d members cases).errors := by
  simp [body, h]

theorem body_enum
    {written : Option (Located TypeExpr)}
    {members : List Tree.EnumMember}
    (h : d.body = .enum written members) :
    (body ctx d).value = (enum written members).value ∧
      (body ctx d).errors = unknownAttributes d ++ (enum written members).errors := by
  simp [body, h]

theorem body_service
    {written : List Tree.Endpoint}
    {decls : List Tree.Decl}
    (h : d.body = .service written decls) :
    (body ctx d).value = .service (endpoints ctx [] [] written).value ∧
      (body ctx d).errors = unknownAttributes d ++ (endpoints ctx [] [] written).errors := by
  simp [body, h]

end Bodies

section Entries

variable (tables : List Table)
variable (defaultTag : String)
variable (package index : Nat)
variable (e : Entry)

/-- Where the names of an entry are resolved. -/
def contextOf :
    Context :=
  { tables, package, index, nameSpan := e.decl.name.span, defaultTag }

@[simp] theorem value_entry :
    (entry tables defaultTag package index e).value =
      { id := ⟨package, index⟩
        name := e.name
        doc := e.decl.doc
        parent := e.parent
        children := e.children
        body := (body (contextOf tables defaultTag package index e) e.decl).value
        span := e.decl.span } :=
  rfl

@[simp] theorem errors_entry :
    (entry tables defaultTag package index e).errors =
      (body (contextOf tables defaultTag package index e) e.decl).errors := by
  simp [entry, contextOf]

end Entries

end Convert
end Schemata
