import Schemata.Proofs.Resolve.FileOrder
import Schemata.Proofs.Resolve.Occurrence

/-!
# Packages that are defined twice

That a package is defined twice is reported when namespaces are assigned and at
no other step, so it is reported exactly when two files have one identity.

**Results.** `reports_duplicatePackage_iff`.
-/

namespace Schemata

/-- The error says that a package is defined twice. -/
def ResolveError.isDuplicatePackage
    (e : ResolveError) :
    Bool :=
  match e.problem with
  | .duplicatePackage _ => true
  | _ => false

theorem isDuplicatePackage_of_isLocal
    (e : ResolveError)
    (h : e.isLocal = true) :
    e.isDuplicatePackage = false := by
  obtain ⟨problem, span, previous⟩ := e
  cases problem <;> first | rfl | cases h

namespace Resolve

/-- A type is no definition of a package. -/
theorem isDuplicatePackage_of_mem_type
    {ctx : Convert.Context}
    {written : TypeExpr}
    {e : ResolveError}
    (h : e ∈ (Convert.type ctx written).errors) :
    e.isDuplicatePackage = false := by
  induction written using TypeExpr.memberInduction with
  | primitive p =>
      cases h
  | name written =>
      cases hfound : Table.resolve? ctx.tables ctx.package ctx.index written with
      | none =>
          rw [Convert.errors_type_name_missing ctx hfound, List.mem_singleton] at h
          rw [h]
          rfl
      | some id =>
          rw [Convert.type_name_found ctx hfound] at h
          cases h
  | array item ih =>
      rw [Convert.errors_type_array] at h
      exact ih h
  | map key value ihKey ihValue =>
      rw [Convert.errors_type_map] at h
      rcases List.mem_append.mp h with h | h
      · rcases List.mem_append.mp h with h | h
        · exact ihKey h
        · exact isDuplicatePackage_of_isLocal e (Convert.allLocal_keyErrors ctx key e h)
      · exact ihValue h
  | tuple items ih =>
      rw [Convert.errors_type_tuple] at h
      obtain ⟨item, hitem, h⟩ := List.mem_flatMap.mp h
      exact ih item hitem h

theorem isDuplicatePackage_of_mem_entry
    {tables : List Table}
    {defaultTag : String}
    {package index : Nat}
    {entry : Entry}
    {e : ResolveError}
    (h : e ∈ (Convert.entry tables defaultTag package index entry).errors) :
    e.isDuplicatePackage = false := by
  have hnone : (Convert.entry tables defaultTag package index entry).errors.filter
      (·.isDuplicatePackage) = [] := by
    rw [Convert.errors_entry, Convert.filter_body _ isDuplicatePackage_of_isLocal,
      List.flatMap_eq_nil_iff]
    intro x _
    refine List.filter_eq_nil_iff.mpr fun e he => ?_
    simp [isDuplicatePackage_of_mem_type he]
  simpa using List.filter_eq_nil_iff.mp hnone e h

theorem duplicatePackages_subset_errors
    (options : ResolveOptions)
    (files : List SourceFile) :
    duplicatePackages [] files ⊆ (schema options files).errors := by
  intro e he
  have hne : duplicatePackages [] files ≠ [] := List.ne_nil_of_mem he
  have hnamespaces : (namespaces options.scheme files).errors = duplicatePackages [] files := by
    unfold namespaces
    dsimp only
    split
    · rename_i hnil
      exact absurd hnil hne
    · rfl
  rw [errors_schema, hnamespaces]
  simp [he]

/-- A resolution reports that a package is defined twice exactly when two files have one
identity. -/
theorem reports_duplicatePackage_iff
    (options : ResolveOptions)
    (files : List SourceFile) :
    (∃ e ∈ (schema options files).errors, e.isDuplicatePackage = true) ↔
      ¬ (files.map (·.identity)).Nodup := by
  have hnodup : duplicatePackages [] files = [] ↔ (files.map (·.identity)).Nodup := by
    simp [duplicatePackages_eq_nil_iff]
  rw [← hnodup]
  constructor
  · rintro ⟨e, he, hduplicate⟩
    rw [errors_schema] at he
    rcases List.mem_append.mp he with he | he
    · rcases List.mem_append.mp he with he | he
      · rcases problem_of_mem_namespaces he with ⟨he, -⟩ | ⟨collision, hproblem⟩
        · exact List.ne_nil_of_mem he
        · simp [ResolveError.isDuplicatePackage, hproblem] at hduplicate
      · rw [isDuplicatePackage_of_isLocal e (allLocal_tables files e he)] at hduplicate
        cases hduplicate
    · obtain ⟨t, -, he⟩ := List.mem_flatMap.mp he
      obtain ⟨x, -, he⟩ := List.mem_flatMap.mp he
      rw [isDuplicatePackage_of_mem_entry he] at hduplicate
      cases hduplicate
  · intro hne
    obtain ⟨e, he⟩ := List.exists_mem_of_ne_nil _ hne
    obtain ⟨name, hproblem⟩ := problem_of_mem_duplicatePackages he
    refine ⟨e, duplicatePackages_subset_errors options files he, ?_⟩
    rw [ResolveError.isDuplicatePackage, hproblem]

end Resolve

end Schemata
