import Schemata.Resolve.Basic
import Schemata.Proofs.Resolve.Convert
import Schemata.Proofs.Resolve.Forest

/-!
# How a schema is put together

A schema has one package for each file, and each package one declaration for
each entry of the table of its file.  This module says which one stands where,
and lists the errors of a resolution in their order, so that other modules
need not open the loops over files and entries.

**Results.**
* `exists_package`: the package of a file.
* `errors_schema`: the errors of names, of registration and imports, and then
  those of the entries, table after table.
* `ResolvedFrom`: the outcome of a resolution without errors, entry by entry.
-/

namespace Schemata
namespace Resolve

section Loops

variable (tables : List Table)
variable (defaultTag : String)

theorem entries_eq_mapM
    (package start : Nat)
    (es : List Entry) :
    entries tables defaultTag package start es =
      (es.zipIdx start).mapM fun x =>
        Convert.entry tables defaultTag package x.2 x.1 := by
  induction es generalizing start with
  | nil =>
      rfl
  | cons e es ih =>
      simp [entries, ih, List.zipIdx_cons]

theorem packages_eq_mapM
    (start : Nat)
    (xs : List (SourceFile × Namespace × Table)) :
    packages tables defaultTag start xs =
      (xs.zipIdx start).mapM fun x =>
        package tables defaultTag x.2 x.1.1 x.1.2.1 x.1.2.2 := by
  induction xs generalizing start with
  | nil =>
      rfl
  | cons x xs ih =>
      simp [packages, ih, List.zipIdx_cons]

theorem errors_package
    (index : Nat)
    (file : SourceFile)
    (ns : Namespace)
    (table : Table) :
    (package tables defaultTag index file ns table).errors =
      table.entries.zipIdx.flatMap fun x =>
        (Convert.entry tables defaultTag index x.2 x.1).errors := by
  simp [package, entries_eq_mapM]

end Loops

section Tables

variable (files : List SourceFile)

/-- The table of one of several files. -/
def tableOf
    (f : SourceFile) :
    Table :=
  { entries := (register 0 none [] f.tree.decls).value.2
    roots := (register 0 none [] f.tree.decls).value.1
    imports := (resolveImports (files.map (·.identity)) [] f.tree.imports).value }

theorem value_tables :
    (tables files).value = files.map (tableOf files) := by
  simp only [tables, registerAll, importAll, Checked.value_bind, Checked.value_pure,
    Checked.value_mapM, List.zip_map', List.map_map]
  rfl

theorem tableOf_ofDecls
    (f : SourceFile) :
    (tableOf files f).OfDecls f.tree.decls :=
  ⟨rfl, rfl⟩

theorem tableOf_forest
    (f : SourceFile) :
    (tableOf files f).Forest :=
  Table.forest_of_register (tableOf_ofDecls files f)

/-- There is a namespace for each file. -/
theorem length_namespaces
    (scheme : VersionScheme) :
    (namespaces scheme files).value.length = files.length := by
  unfold namespaces
  dsimp only
  split
  · split
    · rename_i found hassign
      unfold Namespace.assign at hassign
      dsimp only at hassign
      split at hassign
      · obtain rfl := Except.ok.inj hassign
        simp
      · cases hassign
    · simp
  · simp

end Tables

section Schema

variable (options : ResolveOptions)
variable (files : List SourceFile)

/-- The files with their namespaces and tables. -/
def units : List (SourceFile × Namespace × Table) :=
  files.zip ((namespaces options.scheme files).value.zip (files.map (tableOf files)))

theorem value_schema :
    (schema options files).value.packages =
      (packages (files.map (tableOf files)) options.defaultTag 0 (units options files)).value := by
  simp only [schema, Checked.value_bind, Checked.value_pure, value_tables, units]

theorem map_units :
    (units options files).map (·.2.2) = files.map (tableOf files) := by
  have hlength := length_namespaces files options.scheme
  unfold units
  rw [show (fun x : SourceFile × Namespace × Table => x.2.2) = Prod.snd ∘ Prod.snd from rfl,
    ← List.map_map, List.map_snd_zip (by simp [hlength]), List.map_snd_zip (by simp [hlength])]

theorem getElem?_units
    {index : Nat}
    {f : SourceFile}
    (hf : files[index]? = some f) :
    ∃ ns, (units options files)[index]? = some (f, ns, tableOf files f) := by
  have hlt : index < (namespaces options.scheme files).value.length := by
    rw [length_namespaces]
    exact (List.getElem?_eq_some_iff.mp hf).1
  refine ⟨(namespaces options.scheme files).value[index], ?_⟩
  simp [units, List.getElem?_zip_eq_some, hf, hlt]

/-- The errors of a resolution, in their order. -/
theorem errors_schema :
    (schema options files).errors =
      (namespaces options.scheme files).errors ++ (tables files).errors ++
        (files.map (tableOf files)).zipIdx.flatMap fun t =>
          t.1.entries.zipIdx.flatMap fun e =>
            (Convert.entry (files.map (tableOf files)) options.defaultTag t.2 e.2 e.1).errors := by
  have hunits :
      (files.map (tableOf files)).zipIdx =
        (units options files).zipIdx.map fun x => (x.1.2.2, x.2) := by
    rw [← map_units options files, List.zipIdx_map]
    rfl
  simp only [schema, Checked.errors_bind, Checked.errors_pure, List.append_nil, value_tables,
    packages_eq_mapM, Checked.errors_mapM, errors_package, List.append_assoc]
  rw [hunits, List.flatMap_map]
  rfl

/-- The package of a file: its roots and its declarations are those of the table of the file. -/
theorem exists_package
    {index : Nat}
    {f : SourceFile}
    (hf : files[index]? = some f) :
    ∃ p, (schema options files).value.packages[index]? = some p ∧
      p.roots = (tableOf files f).roots ∧
      ∀ i, p.decls[i]? = (Table.entry? (tableOf files f) i).map fun e =>
        (Convert.entry (files.map (tableOf files)) options.defaultTag index i e).value := by
  obtain ⟨ns, hunit⟩ := getElem?_units options files hf
  rw [value_schema, packages_eq_mapM, Checked.value_mapM]
  refine
    ⟨(package (files.map (tableOf files)) options.defaultTag index f ns (tableOf files f)).value,
      ?_, ?_, ?_⟩
  · simp [hunit]
  · rfl
  · intro i
    simp only [package, entries_eq_mapM, Table.entry?, Checked.value_bind, Checked.value_pure,
      Checked.value_mapM, List.getElem?_map, List.getElem?_zipIdx, Option.map_map, Nat.zero_add]
    rfl

theorem length_schema :
    (schema options files).value.packages.length = files.length := by
  have hunits := congrArg List.length (map_units options files)
  simp only [List.length_map] at hunits
  rw [value_schema, packages_eq_mapM, Checked.value_mapM]
  simp [hunits]

end Schema

/-- The outcome of a resolution without errors. -/
structure ResolvedFrom
    (options : ResolveOptions)
    (files : List SourceFile)
    (s : Schema) : Prop where
  value : s = (schema options files).value
  registered : ∀ f ∈ files, (register 0 none [] f.tree.decls).errors = []
  imported : ∀ f ∈ files,
    (resolveImports (files.map (·.identity)) [] f.tree.imports).errors = []
  converted : ∀ index f, files[index]? = some f →
    ∀ i e, Table.entry? (tableOf files f) i = some e →
      (Convert.entry (files.map (tableOf files)) options.defaultTag index i e).errors = []

theorem resolve_eq_ok_iff
    (options : ResolveOptions)
    (files : List SourceFile)
    (r : Resolved) :
    resolve options files = .ok r ↔
      (schema options files).errors = [] ∧
        r = ⟨(schema options files).value, Cycle.warnings (schema options files).value⟩ := by
  unfold resolve
  dsimp only
  constructor
  · intro h
    split at h
    · exact ⟨by assumption, (Except.ok.inj h).symm⟩
    · cases h
  · rintro ⟨hclean, rfl⟩
    rw [hclean]

theorem resolvedFrom_of_resolve
    {options : ResolveOptions}
    {files : List SourceFile}
    {r : Resolved}
    (h : resolve options files = .ok r) :
    ResolvedFrom options files r.schema := by
  obtain ⟨hclean, rfl⟩ := (resolve_eq_ok_iff options files r).mp h
  rw [errors_schema, List.append_eq_nil_iff, List.append_eq_nil_iff] at hclean
  obtain ⟨⟨-, htables⟩, hentries⟩ := hclean
  simp only [tables, registerAll, importAll, Checked.errors_bind, Checked.errors_pure,
    Checked.errors_mapM, List.append_nil, List.append_eq_nil_iff,
    List.flatMap_eq_nil_iff] at htables
  refine ⟨rfl, htables.1, htables.2, ?_⟩
  intro index f hf i e he
  rw [List.flatMap_eq_nil_iff] at hentries
  have htable : (tableOf files f, index) ∈ (files.map (tableOf files)).zipIdx := by
    rw [List.mem_zipIdx_iff_getElem?]
    simp [hf]
  have hentry := hentries _ htable
  rw [List.flatMap_eq_nil_iff] at hentry
  exact hentry (e, i) (List.mem_zipIdx_iff_getElem?.mpr he)

namespace ResolvedFrom

variable {options : ResolveOptions}
variable {files : List SourceFile}
variable {s : Schema}

/-- Every package of the schema is that of a file. -/
theorem exists_file
    (h : ResolvedFrom options files s)
    {index : Nat}
    {p : Package}
    (hp : s.packages[index]? = some p) :
    ∃ f, files[index]? = some f ∧ p.roots = (tableOf files f).roots ∧
      ∀ i, p.decls[i]? = (Table.entry? (tableOf files f) i).map fun e =>
        (Convert.entry (files.map (tableOf files)) options.defaultTag index i e).value := by
  have hlt : index < files.length := by
    rw [← length_schema options files, ← h.value]
    exact (List.getElem?_eq_some_iff.mp hp).1
  obtain ⟨p', hp', hroots, hdecls⟩ :=
    exists_package options files (List.getElem?_eq_getElem hlt)
  rw [← h.value, hp, Option.some.injEq] at hp'
  subst hp'
  exact ⟨files[index], List.getElem?_eq_getElem hlt, hroots, hdecls⟩

/-- The names in a package are those in the table of its file. -/
theorem decl_name
    {index : Nat}
    {f : SourceFile}
    {p : Package}
    (hdecls : ∀ i, p.decls[i]? = (Table.entry? (tableOf files f) i).map fun e =>
      (Convert.entry (files.map (tableOf files)) options.defaultTag index i e).value)
    (i : Nat) :
    (p.decl i).name = (tableOf files f).nameAt i := by
  unfold Package.decl Table.nameAt
  rw [hdecls i]
  cases Table.entry? (tableOf files f) i with
  | none =>
      rfl
  | some e =>
      rfl

end ResolvedFrom

end Resolve
end Schemata
