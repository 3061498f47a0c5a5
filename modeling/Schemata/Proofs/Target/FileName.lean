import Schemata.Proofs.Project.Path
import Schemata.Proofs.Target.File

/-!
# Names of generated files

The directories and the file in which a declaration is written have names that
are proper names: the parts of a namespace have letters in every spelling, and
the name of a file has an extension.  So the files of a backend are below its
directory, each at a place of its own.

**Results.** `isName_of_mem_files`.
-/

namespace Schemata

namespace Emit

section Segments

variable {ns : Namespace}
variable (h : ns.WellFormed)

include h

/-- The segments of a namespace are names, in both spellings. -/
theorem isName_of_mem_namespaceSegments
    {casing : Option Naming.Casing}
    (hcasing : casing = none ∨ casing = some .upperCamel) :
    ∀ segment ∈ namespaceSegments casing ns, Path.IsName segment := by
  intro segment hsegment
  have hident : Naming.IsIdentText segment := by
    rcases hcasing with rfl | rfl
    · exact isIdentText_namespaceSegments_none h segment hsegment
    · exact isIdentText_namespaceSegments_upperCamel h segment hsegment
  refine Path.isName_of_isIdentText hident ?_
  rcases List.mem_append.mp hsegment with hpart | hversion
  · obtain ⟨part, hmem, rfl⟩ := List.mem_map.mp hpart
    have hletters := h.parts part hmem
    rcases hcasing with rfl | rfl
    · obtain ⟨c, cs, hcons, -⟩ := PackageName.exists_cons_of_isPart hletters
      exact fun hempty => by simp [show part = "" from hempty] at hcons
    · simpa using Naming.upperCamel_ne_nil_of_isPart hletters
  · obtain ⟨c, cs, hcons, -⟩ := h.version segment (Option.mem_toList.mp hversion)
    exact fun hempty => by simp [hempty] at hcons

/-- The file of a namespace has names on the way to it and a name itself. -/
theorem isName_of_mem_namespaceFile
    {casing : Option Naming.Casing}
    (hcasing : casing = none ∨ casing = some .upperCamel)
    {extension : String}
    (hextension : Path.IsName extension) :
    namespaceFile extension (namespaceSegments casing ns) ≠ [] ∧
      ∀ name ∈ namespaceFile extension (namespaceSegments casing ns), Path.IsName name := by
  have hsegments := isName_of_mem_namespaceSegments h hcasing
  have hnil := namespaceSegments_ne_nil casing h
  rw [← List.dropLast_append_getLast hnil] at hsegments ⊢
  rw [namespaceFile_concat]
  refine ⟨List.concat_ne_nil _ _, fun name hname => ?_⟩
  rcases List.mem_append.mp hname with hname | hname
  · exact hsegments name (List.mem_append_left _ hname)
  · rw [List.mem_singleton.mp hname]
    have hlast := hsegments _ (List.mem_append_right _ (List.mem_singleton_self _))
    refine hextension.append ?_
    rw [String.toList_append, List.mem_append]
    exact fun hmem => hmem.elim hlast.slash (by decide)

end Segments

end Emit

namespace Target

/-- A backend writes a declaration to a file with names on the way to it and a name itself. -/
theorem isName_of_mem_path
    {b : Backend}
    (hb : b ∈ all)
    {s : Schema}
    {d : DeclId}
    (h : (s.package d.package).ns.WellFormed) :
    b.path s d ≠ [] ∧ ∀ name ∈ b.path s d, Path.IsName name := by
  simp only [all, List.mem_cons, List.not_mem_nil, or_false] at hb
  rcases hb with rfl | rfl | rfl
  · change CSharp.path s d ≠ [] ∧ ∀ name ∈ CSharp.path s d, Path.IsName name
    rw [CSharp.path]
    refine ⟨List.concat_ne_nil _ _, fun name hname => ?_⟩
    rcases List.mem_append.mp hname with hname | hname
    · exact Emit.isName_of_mem_namespaceSegments h (.inr rfl) name hname
    · rw [List.mem_singleton.mp hname]
      have hident : Naming.IsIdentText (CSharp.typeIdent (s.decl d).name) :=
        Emit.isIdentText_typeIdent .csharp _
      have hending : Path.IsName ".cs" := by decide
      generalize CSharp.typeIdent (s.decl d).name = text at hident ⊢
      exact hending.append (Path.slash_not_mem hident)
  · exact Emit.isName_of_mem_namespaceFile h (.inr rfl) (by decide)
  · exact Emit.isName_of_mem_namespaceFile h (.inl rfl) (by decide)

theorem isName_name
    {b : Backend}
    (hb : b ∈ all) :
    Path.IsName b.name := by
  simp only [all, List.mem_cons, List.not_mem_nil, or_false] at hb
  rcases hb with rfl | rfl | rfl
  · decide
  · decide
  · decide

/-- The files of a schema are below directories of backends, with names all the way. -/
theorem isName_of_mem_files
    {s : Schema}
    (hs : s.Linked)
    (hfit : s.NamespacesFit)
    {options : EmitOptions}
    {backends : List Backend}
    (hbackends : ∀ b ∈ backends, b ∈ all)
    {f : OutputFile}
    (hf : f ∈ (emit s backends options).files) :
    Path.IsName f.backend ∧ f.path ≠ [] ∧ ∀ name ∈ f.path, Path.IsName name := by
  rw [Emit.files_eq] at hf
  obtain ⟨key, hkey, hfile⟩ := List.mem_filterMap.mp hf
  obtain ⟨b, hb, d, hd, -, rfl⟩ := (Emit.mem_keys s options key).mp hkey
  obtain ⟨hname, hpath⟩ := Prod.mk.inj (Emit.key_of_file? s hfile)
  have hpackage := ((s.mem_ids_iff d).mp (Emit.mem_ids_of_mem_roots hs options hd)).1
  rw [hname, hpath]
  exact ⟨isName_name (hbackends b hb),
    isName_of_mem_path (hbackends b hb) (hfit.wellFormed_package hpackage)⟩

end Target
end Schemata
