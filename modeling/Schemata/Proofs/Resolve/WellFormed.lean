import Schemata.Proofs.Resolve.Assembly
import Schemata.Proofs.Resolve.Convert
import Schemata.Proofs.Schema.WellFormed
import Mathlib

/-!
# Resolved schemas are well formed

Each rule of a well-formed schema is checked by one step of the resolution,
which reports what breaks it and goes on.  So the rules hold of what a step
gives whenever the step reports nothing, and they hold of a whole schema
because a schema is given only when nothing was reported anywhere.

The loops of the resolution carry the names seen so far; their invariant is
that what they still produce is fresh with respect to these names.
-/

namespace Schemata
namespace Convert

section Types

variable (ctx : Context)

/-- A type without errors has valid keys. -/
theorem validKeys_type
    (written : TypeExpr) :
    (type ctx written).errors = [] → (type ctx written).value.ValidKeys := by
  induction written using TypeExpr.memberInduction with
  | primitive p =>
      simp
  | name written =>
      intro _
      rw [type]
      split
      · simp
      · simp
  | array item ih =>
      intro h
      rw [errors_type_array] at h
      simpa using ih h
  | map key value ihKey ihValue =>
      intro h
      rw [errors_type_map, List.append_eq_nil_iff, List.append_eq_nil_iff] at h
      obtain ⟨⟨hkey, hisKey⟩, hvalue⟩ := h
      have hvalid : (type ctx key).value.isKey = true := by
        unfold keyErrors at hisKey
        by_contra hnot
        simp [hnot] at hisKey
      rw [value_type_map, TypeRef.validKeys_map]
      exact ⟨(TypeRef.isKey_iff _).mp hvalid, ihKey hkey, ihValue hvalue⟩
  | tuple items ih =>
      intro h
      rw [errors_type_tuple, List.flatMap_eq_nil_iff] at h
      rw [value_type_tuple, TypeRef.validKeys_tuple]
      intro resolved hmem
      obtain ⟨item, hitem, rfl⟩ := List.mem_map.mp hmem
      exact ih item hitem (h item hitem)

theorem validKeys_fields
    {members : List (Tree.Member Tree.Decl)}
    (h : (fields ctx members).errors = []) :
    ∀ f ∈ (fields ctx members).value, f.type.ValidKeys := by
  rw [errors_fields, List.flatMap_eq_nil_iff] at h
  rw [value_fields]
  intro f hf
  obtain ⟨written, hwritten, rfl⟩ := List.mem_map.mp hf
  exact validKeys_type ctx written.type.value (h written hwritten)

end Types

section Fields

/-- Fields whose errors count are fresh when there are none. -/
theorem fresh_of_repeatedFields
    (own : List Field)
    (names jsonNames : Seen)
    (h : repeatedFields names jsonNames (own.map (·, true)) = []) :
    Fresh names (own.map (·.name)) ∧ Fresh jsonNames (own.map (·.jsonName)) := by
  induction own generalizing names jsonNames with
  | nil =>
      exact ⟨fresh_nil names, fresh_nil jsonNames⟩
  | cons f own ih =>
      simp only [List.map_cons, repeatedFields] at h
      cases hname : names.place? f.name with
      | some previous =>
          simp [hname] at h
      | none =>
          cases hjson : jsonNames.place? f.jsonName with
          | some previous =>
              simp [hname, hjson] at h
          | none =>
              simp only [hname, hjson] at h
              obtain ⟨hnames, hjsonNames⟩ := ih _ _ h
              exact ⟨hnames.of_append hname, hjsonNames.of_append hjson⟩

/-- Fresh fields whose errors do not count are only added to what was seen. -/
theorem repeatedFields_uncounted
    (shared : List Field)
    (own : List (Field × Bool))
    (names jsonNames : Seen)
    (hnames : Fresh names (shared.map (·.name)))
    (hjsonNames : Fresh jsonNames (shared.map (·.jsonName))) :
    repeatedFields names jsonNames (shared.map (·, false) ++ own) =
      repeatedFields (names ++ shared.map fun f => (f.name, f.span))
        (jsonNames ++ shared.map fun f => (f.jsonName, f.span)) own := by
  induction shared generalizing names jsonNames with
  | nil =>
      simp
  | cons f shared ih =>
      have hname : names.place? f.name = none :=
        hnames.unseen f.name (by simp)
      have hjson : jsonNames.place? f.jsonName = none :=
        hjsonNames.unseen f.jsonName (by simp)
      simp only [List.map_cons, List.cons_append, repeatedFields, hname, hjson]
      rw [ih _ _ (hnames.tail f.span) (hjsonNames.tail f.span)]
      simp

/-- Fields without errors are distinct. -/
theorem distinct_of_checkFields
    {fields : List Field}
    (h : checkFields fields = []) :
    DistinctFields fields := by
  obtain ⟨hnames, hjsonNames⟩ := fresh_of_repeatedFields fields [] [] h
  exact ⟨hnames.nodup, hjsonNames.nodup⟩

theorem nodup_append_of_fresh
    {κ : Type}
    [BEq κ]
    [LawfulBEq κ]
    {fields own : List Field}
    {key : Field → κ}
    (hfields : (fields.map key).Nodup)
    (hown : Fresh (fields.map fun f => (key f, f.span)) (own.map key)) :
    ((fields ++ own).map key).Nodup := by
  rw [List.map_append, List.nodup_append']
  refine ⟨hfields, hown.nodup, ?_⟩
  intro k hk hk'
  have hunseen := hown.unseen k hk'
  rw [lookup_eq_none_iff_notMem, List.map_map] at hunseen
  exact hunseen hk

/-- The own fields of a case are distinct from each other and from the shared ones. -/
theorem distinct_of_checkOwnFields
    {shared own : List Field}
    (hshared : DistinctFields shared)
    (h : checkOwnFields shared own = []) :
    DistinctFields (shared ++ own) := by
  have hnames : Fresh ([] : Seen) (shared.map (·.name)) := ⟨by simp, hshared.names⟩
  have hjsonNames : Fresh ([] : Seen) (shared.map (·.jsonName)) := ⟨by simp, hshared.jsonNames⟩
  unfold checkOwnFields at h
  rw [repeatedFields_uncounted shared _ [] [] hnames hjsonNames] at h
  obtain ⟨hownNames, hownJson⟩ := fresh_of_repeatedFields own _ _ h
  exact ⟨nodup_append_of_fresh hshared.names hownNames,
    nodup_append_of_fresh hshared.jsonNames hownJson⟩

end Fields

section Interfaces

variable (ctx : Context)

theorem subTypeName_clean
    {names : Seen}
    {c : Tree.SubType Tree.Decl}
    (h : (subTypeName names c).errors = []) :
    names.lookup c.name.value = none ∧
      (subTypeName names c).value = (c.name.value, c.name.span) :: names := by
  unfold subTypeName at h ⊢
  cases hplace : names.place? c.name.value with
  | some previous =>
      simp [hplace] at h
  | none =>
      exact ⟨hplace, rfl⟩

theorem subTypeLiteral_clean
    {literals : Seen}
    {c : Tree.SubType Tree.Decl}
    {text : String}
    (h : (subTypeLiteral literals c text).errors = []) :
    literals.lookup text = none ∧
      (subTypeLiteral literals c text).value = literals ++ [(text, c.name.span)] := by
  unfold subTypeLiteral at h ⊢
  cases hplace : literals.place? text with
  | some previous =>
      simp [hplace] at h
  | none =>
      exact ⟨hplace, rfl⟩

/-- What cases without errors are like, beside the shared fields and the names seen before. -/
structure CleanSubTypes
    (shared : List Field)
    (names literals : Seen)
    (cases : List SubType) : Prop where
  names : Fresh names (cases.map (·.name))
  literals : Fresh literals (cases.map (·.literal))
  fields : ∀ c ∈ cases, DistinctFields (shared ++ c.fields)
  keys : ∀ c ∈ cases, ∀ f ∈ c.fields, f.type.ValidKeys

theorem cleanSubTypes
    {shared : List Field}
    (hshared : DistinctFields shared)
    (names literals : Seen)
    (cases : List (Tree.SubType Tree.Decl))
    (h : (subTypes ctx shared names literals cases).errors = []) :
    CleanSubTypes shared names literals (subTypes ctx shared names literals cases).value := by
  induction cases generalizing names literals with
  | nil =>
      exact ⟨fresh_nil names, fresh_nil literals, by simp [subTypes], by simp [subTypes]⟩
  | cons c rest ih =>
      simp only [errors_subTypes_cons, List.append_eq_nil_iff] at h
      obtain ⟨⟨⟨⟨⟨hname, -⟩, hliteral⟩, hfields⟩, hown⟩, hlater⟩ := h
      obtain ⟨hnewName, hnames⟩ := subTypeName_clean hname
      obtain ⟨hnewLiteral, hliterals⟩ := subTypeLiteral_clean hliteral
      have hrest := ih _ _ hlater
      rw [hnames, hliterals] at hrest
      have hlaterEq :
          laterSubTypes ctx shared names literals c rest =
            subTypes ctx shared ((c.name.value, c.name.span) :: names)
              (literals ++ [((literal c).value, c.name.span)]) rest := by
        rw [laterSubTypes, hnames, hliterals]
      rw [value_subTypes_cons, hlaterEq]
      refine ⟨hrest.names.of_cons hnewName, hrest.literals.of_append hnewLiteral, ?_, ?_⟩
      · intro other hmem
        rcases List.mem_cons.mp hmem with rfl | hmem
        · exact distinct_of_checkOwnFields hshared hown
        · exact hrest.fields other hmem
      · intro other hmem
        rcases List.mem_cons.mp hmem with rfl | hmem
        · exact validKeys_fields ctx hfields
        · exact hrest.keys other hmem

theorem tag_of_tagConflicts
    {body : InterfaceBody}
    (h : tagConflicts body = [])
    (tag : String)
    (hstrategy : body.strategy = .tagged tag) :
    ∀ f ∈ body.fields ++ body.subTypes.flatMap (·.fields), f.jsonName ≠ tag := by
  unfold tagConflicts at h
  simp only [hstrategy, List.map_eq_nil_iff, List.filter_eq_nil_iff] at h
  intro f hf heq
  exact h f hf (by simp [heq])

/-- An interface without errors is well formed, also beside names of declarations inside it. -/
theorem interface_wellFormed
    {d : Tree.Decl}
    {members : List (Tree.Member Tree.Decl)}
    {cases : List (Tree.SubType Tree.Decl)}
    {nested : List String}
    (hnested : ∀ name ∈ nested, name ∈ d.body.nested.map fun n => n.name.value)
    (h : (interface ctx d members cases).errors = []) :
    (interfaceBody ctx d members cases).WellFormed nested ∧
      ∀ t ∈ (DeclBody.interface (interfaceBody ctx d members cases)).types, t.ValidKeys := by
  simp only [errors_interface, List.append_eq_nil_iff] at h
  obtain ⟨⟨⟨⟨⟨-, hfields⟩, hcheck⟩, hcases⟩, htag⟩, huntagged⟩ := h
  have hshared := distinct_of_checkFields hcheck
  have hclean := cleanSubTypes ctx hshared (nestedNames d) [] cases hcases
  refine ⟨⟨hshared, hclean.fields, hclean.names.nodup, ?_, hclean.literals.nodup,
    tag_of_tagConflicts htag, ?_⟩, ?_⟩
  · intro c hc hmem
    have hunseen := hclean.names.unseen c.name (List.mem_map_of_mem hc)
    rw [lookup_eq_none_iff_notMem] at hunseen
    apply hunseen
    unfold nestedNames
    rw [List.map_reverse, List.mem_reverse, List.map_map]
    exact hnested c.name hmem
  · intro hstrategy
    unfold untaggedErrors at huntagged
    rw [hstrategy] at huntagged
    exact huntagged
  · intro t ht
    obtain ⟨f, hf, rfl⟩ := List.mem_map.mp ht
    rcases List.mem_append.mp hf with hf | hf
    · exact validKeys_fields ctx hfields f hf
    · obtain ⟨c, hc, hf⟩ := List.mem_flatMap.mp hf
      exact hclean.keys c hc f hf

end Interfaces

section Enums

theorem eq_string_of_range_eq_none
    {valueType : EnumType}
    (h : valueType.range? = none) :
    valueType = .string := by
  cases valueType with
  | string =>
      rfl
  | u32 =>
      cases h
  | u64 =>
      cases h
  | i32 =>
      cases h
  | i64 =>
      cases h

/-- The value of a member is of the type of the enum and in its range. -/
theorem admits_of_enumValue
    {valueType : EnumType}
    {m : Tree.EnumMember}
    {value : EnumValue}
    (h : enumValue valueType m = .ok value) :
    valueType.Admits value := by
  unfold enumValue at h
  split at h
  · split at h
    · obtain rfl := Except.ok.inj h
      rfl
    · cases h
  · split at h
    · rename_i hrange
      obtain rfl := Except.ok.inj h
      exact eq_string_of_range_eq_none hrange
    · rename_i n least greatest hliteral hrange
      split at h
      · rename_i hbounds
        obtain rfl := Except.ok.inj h
        exact ⟨least, greatest, hrange, hbounds.1, hbounds.2⟩
      · cases h
    · cases h
    · cases h

/-- What members without errors are like, beside the names and values seen before. -/
structure CleanMembers
    (valueType : EnumType)
    (names : Seen)
    (values : List (EnumValue × Span))
    (members : List EnumMember) : Prop where
  names : Fresh names (members.map (·.name))
  values : Fresh values (members.map (·.value))
  admitted : ∀ m ∈ members, valueType.Admits m.value

theorem cleanMembers
    (valueType : EnumType)
    (names : Seen)
    (values : List (EnumValue × Span))
    (members : List Tree.EnumMember)
    (h : (enumMembers valueType names values members).errors = []) :
    CleanMembers valueType names values (enumMembers valueType names values members).value := by
  induction members generalizing names values with
  | nil =>
      exact ⟨fresh_nil names, fresh_nil values, by simp [enumMembers]⟩
  | cons m rest ih =>
      obtain ⟨value, hvalue, hname, hnew, hrest, heq⟩ := enumMembers_cons_clean h
      have hlater := ih _ _ hrest
      rw [heq]
      refine ⟨hlater.names.of_append hname, hlater.values.of_append hnew, ?_⟩
      intro other hmem
      rcases List.mem_cons.mp hmem with rfl | hmem
      · exact admits_of_enumValue hvalue
      · exact hlater.admitted other hmem

theorem enum_wellFormed
    {written : Option (Located TypeExpr)}
    {members : List Tree.EnumMember}
    (h : (enum written members).errors = []) :
    WellFormedEnum (enumType written).value
      (enumMembers (enumType written).value [] [] members).value := by
  simp only [enum, Checked.errors_bind, Checked.errors_pure, List.append_nil,
    List.append_eq_nil_iff] at h
  have hclean := cleanMembers (enumType written).value [] [] members h.2
  exact ⟨hclean.names.nodup, hclean.values.nodup, hclean.admitted⟩

end Enums

section Services

variable (ctx : Context)

/-- Arguments without errors have new names and types with valid keys. -/
theorem clean_arguments
    (names : Seen)
    (written : List Tree.EndpointArgument)
    (h : (arguments ctx names written).errors = []) :
    Fresh names ((arguments ctx names written).value.map (·.name)) ∧
      ∀ a ∈ (arguments ctx names written).value, a.channel.type.ValidKeys := by
  induction written generalizing names with
  | nil =>
      exact ⟨fresh_nil names, by simp [arguments]⟩
  | cons a rest ih =>
      simp only [errors_arguments_cons, List.append_eq_nil_iff] at h
      obtain ⟨⟨hname, hchannel⟩, hrest⟩ := h
      obtain ⟨hnames, hkeys⟩ := ih _ hrest
      rw [value_arguments_cons]
      refine ⟨hnames.of_append (repeatedNames_singleton_eq_nil hname), ?_⟩
      intro other hmem
      rcases List.mem_cons.mp hmem with rfl | hmem
      · rw [errors_channel] at hchannel
        exact validKeys_type ctx a.channel.type.value hchannel
      · exact hkeys other hmem

theorem lookup_of_repeatedId
    {ids : Seen}
    {id : String}
    {span : Span}
    (h : repeatedId ids id span = []) :
    ids.lookup id = none := by
  unfold repeatedId at h
  split at h
  · cases h
  · assumption

/-- What endpoints without errors are like, beside the names and ids seen before. -/
structure CleanEndpoints
    (names ids : Seen)
    (endpoints : List Endpoint) : Prop where
  names : Fresh names (endpoints.map (·.name))
  ids : Fresh ids (endpoints.map (·.id))
  arguments : ∀ e ∈ endpoints, (e.arguments.map (·.name)).Nodup
  keys : ∀ t ∈ (DeclBody.service endpoints).types, t.ValidKeys

theorem cleanEndpoints
    (names ids : Seen)
    (written : List Tree.Endpoint)
    (h : (endpoints ctx names ids written).errors = []) :
    CleanEndpoints names ids (endpoints ctx names ids written).value := by
  induction written generalizing names ids with
  | nil =>
      exact ⟨fresh_nil names, fresh_nil ids, by simp [endpoints],
        by simp [endpoints, DeclBody.types]⟩
  | cons e rest ih =>
      simp only [errors_endpoints_cons, List.append_eq_nil_iff] at h
      obtain ⟨⟨⟨⟨hname, hid⟩, harguments⟩, hresponse⟩, hrest⟩ := h
      have hlater := ih _ _ hrest
      obtain ⟨hargumentNames, hargumentKeys⟩ := clean_arguments ctx [] e.arguments harguments
      rw [value_endpoints_cons]
      refine ⟨hlater.names.of_append (repeatedNames_singleton_eq_nil hname),
        hlater.ids.of_append (lookup_of_repeatedId hid), ?_, ?_⟩
      · intro other hmem
        rcases List.mem_cons.mp hmem with rfl | hmem
        · exact hargumentNames.nodup
        · exact hlater.arguments other hmem
      · intro t ht
        simp only [DeclBody.types, List.flatMap_cons, List.mem_append] at ht
        rcases ht with (ht | ht) | ht
        · obtain ⟨a, ha, rfl⟩ := List.mem_map.mp ht
          exact hargumentKeys a ha
        · rw [Option.map_map, Option.mem_toList, Option.map_eq_some_iff] at ht
          obtain ⟨c, hc, rfl⟩ := ht
          rw [List.flatMap_eq_nil_iff] at hresponse
          have hchannel := hresponse c (by simp [hc])
          rw [errors_channel] at hchannel
          exact validKeys_type ctx c.type.value hchannel
        · exact hlater.keys t ht

end Services

/-- The body of a declaration without errors follows the rules of its kind. -/
theorem body_wellFormed
    (ctx : Context)
    {d : Tree.Decl}
    {nested : List String}
    (hnested : ∀ name ∈ nested, name ∈ d.body.nested.map fun n => n.name.value)
    (h : (body ctx d).errors = []) :
    (body ctx d).value.WellFormed nested ∧ ∀ t ∈ (body ctx d).value.types, t.ValidKeys := by
  cases hbody : d.body with
  | type members =>
      obtain ⟨hvalue, herrors⟩ := body_type ctx hbody
      rw [herrors, List.append_eq_nil_iff, List.append_eq_nil_iff] at h
      rw [hvalue]
      refine ⟨distinct_of_checkFields h.2, ?_⟩
      intro t ht
      obtain ⟨f, hf, rfl⟩ := List.mem_map.mp ht
      exact validKeys_fields ctx h.1.2 f hf
  | tuple members =>
      obtain ⟨hvalue, herrors⟩ := body_tuple ctx hbody
      simp only [herrors, List.append_eq_nil_iff] at h
      obtain ⟨⟨⟨-, hfields⟩, hcheck⟩, hoptional⟩ := h
      rw [hvalue]
      refine ⟨⟨distinct_of_checkFields hcheck, ?_⟩, ?_⟩
      · intro f hf
        unfold optionalErrors at hoptional
        rw [List.map_eq_nil_iff, List.filter_eq_nil_iff] at hoptional
        exact Bool.eq_false_iff.mpr (hoptional f hf)
      · intro t ht
        obtain ⟨f, hf, rfl⟩ := List.mem_map.mp ht
        exact validKeys_fields ctx hfields f hf
  | interface members cases =>
      obtain ⟨hvalue, herrors⟩ := body_interface ctx hbody
      rw [herrors, List.append_eq_nil_iff] at h
      rw [hvalue, value_interface]
      exact interface_wellFormed ctx hnested h.2
  | enum written members =>
      obtain ⟨hvalue, herrors⟩ := body_enum ctx hbody
      rw [herrors, List.append_eq_nil_iff] at h
      rw [hvalue]
      refine ⟨enum_wellFormed h.2, ?_⟩
      intro t ht
      cases ht
  | service written decls =>
      obtain ⟨hvalue, herrors⟩ := body_service ctx hbody
      rw [herrors, List.append_eq_nil_iff] at h
      rw [hvalue]
      have hclean := cleanEndpoints ctx [] [] written h.2
      exact ⟨⟨hclean.names.nodup, hclean.ids.nodup, hclean.arguments⟩, hclean.keys⟩

end Convert

/-- A schema without errors is well formed. -/
theorem Resolve.ResolvedFrom.wellFormed
    {options : ResolveOptions}
    {files : List SourceFile}
    {s : Schema}
    (h : Resolve.ResolvedFrom options files s) :
    s.WellFormed := by
  intro p hp d hd
  obtain ⟨index, hindex⟩ := List.getElem?_of_mem hp
  obtain ⟨f, hf, -, hdecls⟩ := h.exists_file hindex
  obtain ⟨i, hi⟩ := List.getElem?_of_mem hd
  rw [hdecls i, Option.map_eq_some_iff] at hi
  obtain ⟨e, he, rfl⟩ := hi
  have hclean := h.converted index f hf i e he
  rw [Convert.errors_entry] at hclean
  have hnode := (Resolve.tableOf_forest files f).node i e he
  have hnested : ∀ name ∈ e.children.map fun c => (p.decl c).name,
      name ∈ e.decl.body.nested.map fun n => n.name.value := by
    intro name hname
    obtain ⟨c, hc, rfl⟩ := List.mem_map.mp hname
    obtain ⟨-, inner, hinner, -, hmem⟩ := hnode.children c hc
    rw [Resolve.ResolvedFrom.decl_name hdecls, Table.nameAt_of_entry hinner]
    exact List.mem_map_of_mem hmem
  obtain ⟨hbody, hkeys⟩ := Convert.body_wellFormed _ hnested hclean
  exact ⟨hbody, hkeys⟩

/-- A schema that files resolve to is well formed. -/
theorem resolve_wellFormed
    {options : ResolveOptions}
    {files : List SourceFile}
    {r : Resolved}
    (h : resolve options files = .ok r) :
    r.schema.WellFormed :=
  (Resolve.resolvedFrom_of_resolve h).wellFormed

namespace Sample

/-- A field of a sample file. -/
def field
    (name : String)
    (optional : Bool)
    (type : TypeExpr) :
    Tree.Member Tree.Decl :=
  .field ⟨[], ⟨name, default⟩, optional, ⟨type, default⟩, none, default⟩

/-- An enum inside the interface of shapes. -/
def unit : Tree.Decl :=
  { doc := []
    attributes := []
    name := ⟨"Unit", default⟩
    body := .enum (some ⟨.primitive .u32, default⟩)
      [⟨[], ⟨"Mm", default⟩, some ⟨.number (.integer 1), default⟩, default⟩,
        ⟨[], ⟨"Cm", default⟩, some ⟨.number (.integer 10), default⟩, default⟩]
    span := default }

/-- An untagged interface: a shape is a point, or a line between shapes. -/
def shape : Tree.Decl :=
  { doc := []
    attributes :=
      [⟨⟨"type_info", default⟩,
        [⟨⟨"strategy", default⟩, some ⟨.string "untagged", default⟩⟩], default⟩]
    name := ⟨"Shape", default⟩
    body := .interface [.decl unit]
      [⟨[], ⟨"Point", default⟩, none,
          [field "x" false (.primitive .u32), field "unit" true (.name ⟨none, ["Unit"], default⟩),
            field "label" true (.primitive .any)], default⟩,
        ⟨[], ⟨"Line", default⟩, none,
          [field "ends" false (.array (.name ⟨none, ["Shape"], default⟩)),
            field "marks" true (.map (.primitive .i64) (.primitive .double))], default⟩]
    span := default }

/-- A file with the interface of shapes. -/
def shapes : SourceFile :=
  { file := 0
    identity := ⟨⟨["shapes"]⟩, none⟩
    tree := { doc := [], imports := [], decls := [shape] } }

/-- Options of a resolution. -/
def options : ResolveOptions :=
  { scheme := .underscored, defaultTag := "type" }

/-- The fields of a point. -/
def pointFields : List Field :=
  [⟨"x", "x", .primitive .u32, false, [], default⟩,
    ⟨"unit", "unit", .decl ⟨0, 1⟩, true, [], default⟩,
    ⟨"label", "label", .primitive .any, true, [], default⟩]

/-- The fields of a line. -/
def lineFields : List Field :=
  [⟨"ends", "ends", .array (.decl ⟨0, 0⟩), false, [], default⟩,
    ⟨"marks", "marks", .map (.primitive .i64) (.primitive .double), true, [], default⟩]

/-- The body of the interface of shapes. -/
def shapeBody : InterfaceBody :=
  { fields := []
    subTypes :=
      [⟨"Point", "Point", [], pointFields, default⟩, ⟨"Line", "Line", [], lineFields, default⟩]
    strategy := .untagged }

/-- The schema that the file resolves to. -/
def schema : Schema :=
  ⟨[{ identity := ⟨⟨["shapes"]⟩, none⟩
      ns := ⟨["shapes"], none⟩
      doc := []
      decls :=
        [⟨⟨0, 0⟩, "Shape", [], none, [1], .interface shapeBody, default⟩,
          ⟨⟨0, 1⟩, "Unit", [], some 0, [], .enum .u32
            [⟨"Mm", .number 1, [], default⟩, ⟨"Cm", .number 10, [], default⟩], default⟩]
      roots := [0] }]⟩

theorem resolve_shapes :
    resolve options [shapes] = .ok ⟨schema, []⟩ := by
  with_unfolding_all rfl

end Sample

theorem resolve_wellFormed_shapes :
    resolve Sample.options [Sample.shapes] = .ok ⟨Sample.schema, []⟩ ∧
      Sample.schema.WellFormed :=
  ⟨Sample.resolve_shapes, resolve_wellFormed Sample.resolve_shapes⟩

end Schemata
