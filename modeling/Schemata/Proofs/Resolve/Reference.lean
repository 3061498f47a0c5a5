import Schemata.Proofs.Resolve.Occurrence
import Schemata.Proofs.Resolve.Scope
import Schemata.Proofs.Resolve.WellFormed

/-!
# Resolution of names is exact

Files that resolve give a schema whose types are the written ones, with every
name replaced by the place of the declaration that the name means; no name is
replaced by anything else.  When files do not resolve, the unresolved
references that are reported are exactly the names that mean nothing, once for
each time that such a name is written in a declaration that counts.

**Results.** `exact_of_resolvedFrom`, `references_schema`,
`resolve_references`.
-/

namespace Schemata
namespace Reference

/-- A written type with each name replaced by the place of a declaration that the name stands for. -/
inductive Replaces
    (means : TypeName → DeclId → Prop) :
    TypeExpr → TypeRef → Prop
  | primitive
      (p : Primitive) :
      Replaces means (.primitive p) (.primitive p)
  | name
      {written : TypeName}
      {id : DeclId}
      (hmeans : means written id) :
      Replaces means (.name written) (.decl id)
  | array
      {item : TypeExpr}
      {found : TypeRef}
      (hitem : Replaces means item found) :
      Replaces means (.array item) (.array found)
  | map
      {key value : TypeExpr}
      {foundKey foundValue : TypeRef}
      (hkey : Replaces means key foundKey)
      (hvalue : Replaces means value foundValue) :
      Replaces means (.map key value) (.map foundKey foundValue)
  | tuple
      {items : List TypeExpr}
      {found : List TypeRef}
      (hlength : items.length = found.length)
      (hitems : ∀ x ∈ items.zip found, Replaces means x.1 x.2) :
      Replaces means (.tuple items) (.tuple found)

/-- In the declaration at `id`, the name means the declaration at `target`. -/
def Refers
    (files : List SourceFile)
    (s : Schema)
    (id : DeclId)
    (name : TypeName)
    (target : DeclId) : Prop :=
  target ∈ s.ids ∧
    Denotes files id.package (s.declPath id) name target.package (s.declPath target)

/-- The schema says what the files say.  Every declaration of the files counts, at every depth; the
places of the schema are those of the declarations, each with its path; and each declaration of the
schema has, at the places where the file has types, the written types with the names replaced by the
declarations that they mean. -/
structure Exact
    (files : List SourceFile)
    (s : Schema) : Prop where
  outermost : ∀ package f, files[package]? = some f →
    ∀ d ∈ f.tree.decls, ([d.name.value], d) ∈ declared files package
  nested : ∀ package path d, (path, d) ∈ declared files package →
    ∀ c ∈ d.body.nested, (path ++ [c.name.value], c) ∈ declared files package
  paths : ∀ id ∈ s.ids, IsPath files id.package (s.declPath id)
  places : ∀ package path, IsPath files package path →
    ∃! id, id ∈ s.ids ∧ id.package = package ∧ s.declPath id = path
  types : ∀ id ∈ s.ids, ∀ d, (s.declPath id, d) ∈ declared files id.package →
    List.Forall₂ (fun written found => found.1 = written.1 ∧
      Replaces (Refers files s id) written.2 found.2) d.body.typed (s.decl id).body.typed

/-- The names that mean nothing, in the order of the files, once for each time they are written. -/
def missing
    (files : List SourceFile) :
    List TypeName :=
  files.zipIdx.flatMap fun f =>
    (Tree.listing [] [] f.1.tree.decls).flatMap fun d =>
      (d.2.body.typed.flatMap fun x => x.2.names).filter fun name =>
        decide (¬ HasMeaning files f.2 d.1 name)

section Types

variable (ctx : Convert.Context)

/-- In the context, the name is found at the place. -/
def FoundIn
    (name : TypeName)
    (id : DeclId) : Prop :=
  Table.resolve? ctx.tables ctx.package ctx.index name = some id

theorem Replaces.imp
    {means means' : TypeName → DeclId → Prop}
    (himp : ∀ name id, means name id → means' name id)
    {written : TypeExpr}
    {found : TypeRef}
    (h : Replaces means written found) :
    Replaces means' written found := by
  induction h with
  | primitive p =>
      exact Replaces.primitive p
  | name hmeans =>
      exact Replaces.name (himp _ _ hmeans)
  | array hitem ih =>
      exact Replaces.array ih
  | map hkey hvalue ihKey ihValue =>
      exact Replaces.map ihKey ihValue
  | tuple hlength hitems ih =>
      exact Replaces.tuple hlength ih

/-- A type all of whose names are found is the written one with each name replaced. -/
theorem replaces_type
    (written : TypeExpr) :
    Convert.references (Convert.type ctx written).errors = [] →
      Replaces (FoundIn ctx) written (Convert.type ctx written).value := by
  induction written using TypeExpr.memberInduction with
  | primitive p =>
      intro _
      rw [Convert.type_primitive]
      exact Replaces.primitive p
  | name written =>
      intro h
      cases hfound : Table.resolve? ctx.tables ctx.package ctx.index written with
      | none =>
          rw [Convert.errors_type_name_missing ctx hfound] at h
          cases h
      | some id =>
          rw [Convert.type_name_found ctx hfound]
          exact Replaces.name hfound
  | array item ih =>
      intro h
      rw [Convert.errors_type_array] at h
      rw [Convert.value_type_array]
      exact Replaces.array (ih h)
  | map key value ihKey ihValue =>
      intro h
      rw [Convert.errors_type_map, Convert.references_append, Convert.references_append,
        List.append_eq_nil_iff, List.append_eq_nil_iff] at h
      rw [Convert.value_type_map]
      exact Replaces.map (ihKey h.1.1) (ihValue h.2)
  | tuple items ih =>
      intro h
      rw [Convert.errors_type_tuple, Convert.references_flatMap, List.flatMap_eq_nil_iff] at h
      rw [Convert.value_type_tuple]
      refine Replaces.tuple (by simp) ?_
      intro x hx
      rw [List.zip_map_right, List.mem_map] at hx
      obtain ⟨⟨item, same⟩, hmem, rfl⟩ := hx
      rw [List.zip_eq_zipWith, List.zipWith_self, List.mem_map] at hmem
      obtain ⟨item', hitem, heq⟩ := hmem
      obtain ⟨rfl, rfl⟩ := Prod.mk.inj heq
      exact ih item' hitem (h item' hitem)

/-- A declaration without errors has at each place the written type with its names replaced. -/
theorem replaces_body
    {d : Tree.Decl}
    (h : (Convert.body ctx d).errors = []) :
    List.Forall₂ (fun written found => found.1 = written.1 ∧
      Replaces (FoundIn ctx) written.2 found.2) d.body.typed (Convert.body ctx d).value.typed := by
  have hreferences := Convert.references_body ctx d
  rw [h, Convert.references_nil] at hreferences
  rw [Convert.typed_body, List.forall₂_map_right_iff, List.forall₂_same]
  intro x hx
  exact ⟨rfl, replaces_type ctx x.2 (List.flatMap_eq_nil_iff.mp hreferences.symm x hx)⟩

end Types

section Places

variable {options : ResolveOptions}
variable {files : List SourceFile}
variable {s : Schema}
variable (h : Resolve.ResolvedFrom options files s)

include h

theorem exists_package_of_file
    {package : Nat}
    {f : SourceFile}
    (hf : files[package]? = some f) :
    ∃ p, s.packages[package]? = some p ∧ s.package package = p ∧
      ∀ i, p.decls[i]? = (Table.entry? (Resolve.tableOf files f) i).map fun e =>
        (Convert.entry (files.map (Resolve.tableOf files)) options.defaultTag package i e).value := by
  obtain ⟨p, hp, -, hdecls⟩ := Resolve.exists_package options files hf
  rw [← h.value] at hp
  exact ⟨p, hp, by simp [Schema.package, hp], hdecls⟩

theorem length_decls
    {package : Nat}
    {f : SourceFile}
    (hf : files[package]? = some f) :
    (s.package package).decls.length = (Resolve.tableOf files f).entries.length := by
  obtain ⟨p, -, rfl, hdecls⟩ := exists_package_of_file h hf
  refine le_antisymm ?_ ?_
  · rw [← List.getElem?_eq_none_iff, hdecls, Option.map_eq_none_iff, Table.entry?,
      List.getElem?_eq_none_iff]
  · have hnone := hdecls (s.package package).decls.length
    rw [List.getElem?_eq_none_iff.mpr (le_refl _)] at hnone
    exact List.getElem?_eq_none_iff.mp (Option.map_eq_none_iff.mp hnone.symm)

/-- The places of the schema are the entries of the tables. -/
theorem mem_ids_iff
    (id : DeclId) :
    id ∈ s.ids ↔ ∃ f e, files[id.package]? = some f ∧
      Table.entry? (Resolve.tableOf files f) id.index = some e := by
  have hlength : s.packages.length = files.length := by
    rw [h.value, Resolve.length_schema]
  simp only [Schema.ids, Schema.idsOf, List.mem_flatMap, List.mem_map, List.mem_range, hlength]
  constructor
  · rintro ⟨package, hpackage, i, hi, rfl⟩
    have hf : files[package]? = some files[package] := List.getElem?_eq_getElem hpackage
    rw [length_decls h hf] at hi
    exact ⟨files[package], _, hf, List.getElem?_eq_getElem hi⟩
  · rintro ⟨f, e, hf, he⟩
    refine ⟨id.package, (List.getElem?_eq_some_iff.mp hf).1, id.index, ?_, rfl⟩
    rw [length_decls h hf]
    exact (List.getElem?_eq_some_iff.mp he).1

/-- The path of a declaration of the schema is the path of its entry. -/
theorem declPath_eq
    {package : Nat}
    {f : SourceFile}
    (hf : files[package]? = some f)
    (i : Nat) :
    s.declPath ⟨package, i⟩ = (Resolve.tableOf files f).pathAt i := by
  have hlength := length_decls h hf
  obtain ⟨p, -, rfl, hdecls⟩ := exists_package_of_file h hf
  have hname := Resolve.ResolvedFrom.decl_name hdecls
  have hparent : ∀ k, ((s.package package).decl k).parent =
      (Resolve.tableOf files f).parentAt k := by
    intro k
    unfold Package.decl Table.parentAt
    rw [hdecls k]
    cases Table.entry? (Resolve.tableOf files f) k with
    | none =>
        rfl
    | some e =>
        rfl
  simp only [Schema.declPath, Package.parents, Table.pathAt, hname, hparent, hlength]

end Places

section Exact

variable {options : ResolveOptions}
variable {files : List SourceFile}
variable {s : Schema}
variable (h : Resolve.ResolvedFrom options files s)

include h

theorem mirrors_of_file
    {package : Nat}
    {f : SourceFile}
    (hf : files[package]? = some f) :
    (Resolve.tableOf files f).Mirrors f.tree.decls :=
  Table.mirrors_of_register (Resolve.tableOf_ofDecls files f)
    (h.registered f (List.mem_of_getElem? hf))

theorem outermost_declared
    {package : Nat}
    {f : SourceFile}
    (hf : files[package]? = some f)
    {d : Tree.Decl}
    (hd : d ∈ f.tree.decls) :
    ([d.name.value], d) ∈ declared files package := by
  have hforest := Resolve.tableOf_forest files f
  have hmem : some d ∈ (Resolve.tableOf files f).declsAt (Resolve.tableOf files f).roots := by
    rw [(mirrors_of_file h hf).roots]
    exact List.mem_map_of_mem hd
  obtain ⟨i, hi, hdecl⟩ := List.mem_map.mp hmem
  obtain ⟨e, he, rfl⟩ := Option.map_eq_some_iff.mp hdecl
  obtain ⟨e', he', hparent⟩ := hforest.roots i hi
  obtain rfl : e = e' := Option.some.inj (he.symm.trans he')
  exact (mem_declared_iff files hf _ _).mpr ⟨i, e, he, rfl, Table.Leads.root he hparent⟩

theorem nested_declared
    {package : Nat}
    {path : List String}
    {d : Tree.Decl}
    (hd : (path, d) ∈ declared files package)
    {c : Tree.Decl}
    (hc : c ∈ d.body.nested) :
    (path ++ [c.name.value], c) ∈ declared files package := by
  obtain ⟨f, hf⟩ := exists_file_of_isPath files ⟨d, hd⟩
  have hforest := Resolve.tableOf_forest files f
  obtain ⟨p, outer, houter, rfl, hleads⟩ := (mem_declared_iff files hf path d).mp hd
  have hmem : some c ∈ (Resolve.tableOf files f).declsAt outer.children := by
    rw [(mirrors_of_file h hf).children p outer houter]
    exact List.mem_map_of_mem hc
  obtain ⟨i, hi, hdecl⟩ := List.mem_map.mp hmem
  obtain ⟨e, he, rfl⟩ := Option.map_eq_some_iff.mp hdecl
  obtain ⟨-, e', he', hparent, -⟩ := (hforest.node p outer houter).children i hi
  obtain rfl : e = e' := Option.some.inj (he.symm.trans he')
  exact (mem_declared_iff files hf _ _).mpr ⟨i, e, he, rfl, Table.Leads.child hleads he hparent⟩

theorem existsUnique_place
    {package : Nat}
    {path : List String}
    (hpath : IsPath files package path) :
    ∃! id, id ∈ s.ids ∧ id.package = package ∧ s.declPath id = path := by
  obtain ⟨f, hf⟩ := exists_file_of_isPath files hpath
  have hforest := Resolve.tableOf_forest files f
  obtain ⟨i, hleads⟩ := (isPath_iff files hf path).mp hpath
  obtain ⟨e, he⟩ := hleads.exists_entry
  refine ⟨⟨package, i⟩, ⟨(mem_ids_iff h _).mpr ⟨f, e, hf, he⟩, rfl, ?_⟩, ?_⟩
  · rw [declPath_eq h hf, hleads.pathAt hforest]
  · rintro ⟨package', j⟩ ⟨hid, rfl, hj⟩
    obtain ⟨f', e', hf', he'⟩ := (mem_ids_iff h _).mp hid
    obtain rfl : f = f' := Option.some.inj (hf.symm.trans hf')
    rw [declPath_eq h hf] at hj
    have hleads' := hforest.leads_pathAt he'
    rw [hj] at hleads'
    rw [Table.Leads.eq hforest hleads hleads']

/-- What is found in the declaration at a place is what the name means there. -/
theorem refers_of_foundIn
    {package index : Nat}
    {f : SourceFile}
    {e : Entry}
    (hf : files[package]? = some f)
    (he : Table.entry? (Resolve.tableOf files f) index = some e)
    {name : TypeName}
    {target : DeclId}
    (hfound : FoundIn (Convert.contextOf (files.map (Resolve.tableOf files)) options.defaultTag
      package index e) name target) :
    Refers files s ⟨package, index⟩ name target := by
  have hforest := Resolve.tableOf_forest files f
  obtain ⟨path, g, hdenotes, hg, hleads⟩ :=
    (resolve?_eq_some_iff files hf name (hforest.leads_pathAt he) target).mp hfound
  obtain ⟨inner, hinner⟩ := hleads.exists_entry
  have hpath : s.declPath target = path := by
    have hforest' := Resolve.tableOf_forest files g
    rw [← hleads.pathAt hforest']
    exact declPath_eq h hg target.index
  refine ⟨(mem_ids_iff h target).mpr ⟨g, inner, hg, hinner⟩, ?_⟩
  rw [declPath_eq h hf, hpath]
  exact hdenotes

/-- The body at a place is that of its entry. -/
theorem body_eq
    {package index : Nat}
    {f : SourceFile}
    {e : Entry}
    (hf : files[package]? = some f)
    (he : Table.entry? (Resolve.tableOf files f) index = some e) :
    (s.decl ⟨package, index⟩).body =
      (Convert.body (Convert.contextOf (files.map (Resolve.tableOf files)) options.defaultTag
        package index e) e.decl).value := by
  obtain ⟨p, -, hp, hdecls⟩ := exists_package_of_file h hf
  simp only [Schema.decl, hp, Package.decl, hdecls index, he, Option.map_some,
    Option.getD_some, Convert.value_entry]

/-- The schema that files resolve to says what the files say. -/
theorem exact_of_resolvedFrom :
    Exact files s where
  outermost := fun package f hf d hd => outermost_declared h hf hd
  nested := fun package path d hd c hc => nested_declared h hd hc
  paths := by
    rintro ⟨package, index⟩ hid
    obtain ⟨f, e, hf, he⟩ := (mem_ids_iff h _).mp hid
    have hforest := Resolve.tableOf_forest files f
    rw [declPath_eq h hf, isPath_iff files hf]
    exact ⟨index, hforest.leads_pathAt he⟩
  places := fun package path hpath => existsUnique_place h hpath
  types := by
    rintro ⟨package, index⟩ hid d hd
    obtain ⟨f, e, hf, he⟩ := (mem_ids_iff h _).mp hid
    have hforest := Resolve.tableOf_forest files f
    have hclean := h.converted package f hf index e he
    rw [Convert.errors_entry] at hclean
    rw [mem_declared_iff files hf, declPath_eq h hf] at hd
    obtain ⟨i, e', he', rfl, hleads⟩ := hd
    obtain rfl := Table.Leads.eq hforest hleads (hforest.leads_pathAt he)
    obtain rfl : e = e' := Option.some.inj (he.symm.trans he')
    rw [body_eq h hf he]
    refine (replaces_body _ hclean).imp ?_
    rintro written found ⟨hplace, hreplaces⟩
    exact ⟨hplace, hreplaces.imp fun name target hfound => refers_of_foundIn h hf he hfound⟩

end Exact

section Missing

theorem references_namespaces
    (scheme : VersionScheme)
    (files : List SourceFile) :
    Convert.references (Resolve.namespaces scheme files).errors = [] := by
  refine List.filter_eq_nil_iff.mpr fun e he => ?_
  rcases Resolve.problem_of_mem_namespaces he with ⟨-, name, hproblem⟩ | ⟨collision, hproblem⟩
  · simp [ResolveError.isReference, hproblem]
  · simp [ResolveError.isReference, hproblem]

theorem references_tables
    (files : List SourceFile) :
    Convert.references (Resolve.tables files).errors = [] :=
  (allLocal_tables files).filter_eq_nil Convert.isReference_of_isLocal

/-- The references that an entry reports are the names in its declaration that mean nothing. -/
theorem references_entry
    (files : List SourceFile)
    (defaultTag : String)
    {package index : Nat}
    {f : SourceFile}
    {e : Entry}
    (hf : files[package]? = some f)
    (he : Table.entry? (Resolve.tableOf files f) index = some e) :
    Convert.references
        (Convert.entry (files.map (Resolve.tableOf files)) defaultTag package index e).errors =
      ((e.decl.body.typed.flatMap fun x => x.2.names).filter fun name =>
        decide (¬ HasMeaning files package ((Resolve.tableOf files f).pathAt index) name)).map
          TypeName.error := by
  have hforest := Resolve.tableOf_forest files f
  have hmissing : ∀ name : TypeName,
      (Table.resolve? (files.map (Resolve.tableOf files)) package index name).isNone =
        decide (¬ HasMeaning files package ((Resolve.tableOf files f).pathAt index) name) := by
    intro name
    rw [Bool.eq_iff_iff, Option.isNone_iff_eq_none, decide_eq_true_iff]
    exact resolve?_eq_none_iff files hf name (hforest.leads_pathAt he)
  rw [Convert.errors_entry, Convert.references_body, List.filter_flatMap, List.map_flatMap]
  refine List.flatMap_congr fun x hx => ?_
  rw [Convert.references_type]
  simp only [Convert.contextOf, hmissing]

/-- The references that a resolution reports are the names that mean nothing. -/
theorem references_schema
    (options : ResolveOptions)
    (files : List SourceFile) :
    Convert.references (Resolve.schema options files).errors =
      (missing files).map TypeName.error := by
  rw [Resolve.errors_schema, Convert.references_append, Convert.references_append,
    references_namespaces, references_tables, List.nil_append, List.nil_append, missing,
    List.map_flatMap, List.zipIdx_map, List.flatMap_map, Convert.references_flatMap]
  refine List.flatMap_congr fun x hx => ?_
  obtain ⟨f, package⟩ := x
  have hf : files[package]? = some f := List.mem_zipIdx_iff_getElem?.mp hx
  rw [listing_file files f, List.flatMap_map, List.map_flatMap, Convert.references_flatMap]
  refine List.flatMap_congr fun y hy => ?_
  obtain ⟨e, index⟩ := y
  exact references_entry files options.defaultTag hf (List.mem_zipIdx_iff_getElem?.mp hy)

end Missing

end Reference

/-- Resolution of names is exact.  A schema has the written types with each name replaced by the
declaration that it means; without a schema, the unresolved references are exactly the names that
mean nothing. -/
theorem resolve_references
    (options : ResolveOptions)
    (files : List SourceFile) :
    (∀ r, resolve options files = .ok r → Reference.Exact files r.schema) ∧
      ∀ errors, resolve options files = .error errors →
        errors.filter (·.isReference) = (Reference.missing files).map TypeName.error := by
  refine ⟨fun r h => ?_, fun errors h => ?_⟩
  · exact Reference.exact_of_resolvedFrom (Resolve.resolvedFrom_of_resolve h)
  · rw [← Reference.references_schema options files]
    unfold resolve at h
    dsimp only at h
    split at h
    · cases h
    · obtain rfl := Except.error.inj h
      rfl

namespace Sample

/-- A type with a declaration inside that has the name of an outer one, and a name that means
nothing. -/
def garden : Tree.Decl :=
  { doc := []
    attributes := []
    name := ⟨"Garden", default⟩
    body := .type
      [.decl
        { doc := []
          attributes := []
          name := ⟨"Tree", default⟩
          body := .type [field "leaf" false (.name ⟨none, ["Tree", "Leaf"], default⟩)]
          span := default },
        field "tallest" true (.name ⟨none, ["Tree"], default⟩),
        field "weeds" false (.array (.name ⟨none, ["Tree", "Weed"], default⟩))]
    span := default }

/-- A type outside of the garden. -/
def tree : Tree.Decl :=
  { doc := []
    attributes := []
    name := ⟨"Tree", default⟩
    body := .type
      [.decl
        { doc := []
          attributes := []
          name := ⟨"Leaf", default⟩
          body := .type []
          span := default }]
    span := default }

/-- A file with a name that means nothing. -/
def gardens : SourceFile :=
  { file := 0
    identity := ⟨⟨["gardens"]⟩, none⟩
    tree := { doc := [], imports := [], decls := [garden, tree] } }

theorem resolve_gardens :
    resolve options [gardens] =
      .error [.located default (.unresolvedReference "Tree::Weed")] := by
  with_unfolding_all rfl

end Sample

theorem resolve_references_samples :
    Reference.Exact [Sample.shapes] Sample.schema ∧
      [ResolveError.located default (.unresolvedReference "Tree::Weed")].filter (·.isReference) =
        (Reference.missing [Sample.gardens]).map TypeName.error :=
  ⟨(resolve_references Sample.options [Sample.shapes]).1 _ Sample.resolve_shapes,
    (resolve_references Sample.options [Sample.gardens]).2 _ Sample.resolve_gardens⟩

end Schemata
