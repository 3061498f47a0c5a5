import Schemata.Proofs.Target.File

/-!
# Modules of packages

The module of a package is made from the declarations of the package that are
not refused, and from nothing else: what it imports depends on them alone, and
no other package has a module with its path.  So it does not matter to a module
which other packages are written, and writing some packages gives some of the
files that writing all of them gives.

**Results.** `resolve_modules`.
-/

namespace Schemata
namespace Target
namespace JavaScript

/-- The outermost declarations of a package that are not refused. -/
def accepted
    (s : Schema)
    (package : Nat) :
    List DeclId :=
  (s.rootsOf package).filter fun d => (javascript.error? s d).isNone

/-- The module of a package. -/
def moduleFile
    (s : Schema)
    (placement : Placement)
    (package : Nat) :
    OutputFile :=
  { backend := javascript.name
    path := modulePath (s.package package)
    contents := assemble s (modulePath (s.package package))
      ((accepted s package).map fun d => ⟨d, javascript.text s placement d⟩) }

/-- The file is the module of one of the packages. -/
def belongsTo
    (s : Schema)
    (selection : List Nat)
    (f : OutputFile) :
    Bool :=
  selection.any fun package =>
    package < s.packages.length && f.path == modulePath (s.package package)

section Selection

variable {s : Schema}
variable {options : EmitOptions}

/-- Roots of selected packages are roots of packages, filtered. -/
theorem roots_of_selection
    {placement : Placement}
    {selection : List Nat}
    (hne : selection ≠ []) :
    Emit.roots s ⟨placement, selection⟩ =
      (Emit.roots s ⟨placement, []⟩).filter fun d => selection.contains d.package := by
  have hall : Emit.selected s ⟨placement, []⟩ = List.range s.packages.length := by
    simp [Emit.selected]
  have hsome : Emit.selected s ⟨placement, selection⟩ =
      (List.range s.packages.length).filter selection.contains := by
    refine List.filter_congr fun package _ => ?_
    rw [List.isEmpty_eq_false_iff.mpr hne, Bool.false_or]
  have hpackage : ∀ package, (s.rootsOf package).filter (fun d => selection.contains d.package) =
      if selection.contains package then s.rootsOf package else [] := by
    intro package
    simp only [Schema.rootsOf, List.filter_map, Function.comp_def]
    by_cases hin : package ∈ selection
    · simp [hin]
    · simp [hin]
  rw [Emit.roots, Emit.roots, hall, hsome, List.filter_flatMap]
  simp only [hpackage]
  generalize List.range s.packages.length = packages
  induction packages with
  | nil =>
      rfl
  | cons package packages ih =>
      rw [List.filter_cons, List.flatMap_cons, ← ih]
      split <;> simp

variable (hfit : s.NamespacesFit)
include hfit

/-- What is written to the module of a package is what its own declarations give. -/
theorem decls_bundle
    {package : Nat}
    (hpackage : package ∈ Emit.selected s options) :
    (Emit.bundle s options javascript (modulePath (s.package package))).decls =
      accepted s package := by
  have hkeys : ((Emit.selected s options).map id).Nodup := by
    rw [List.map_id]
    exact List.nodup_range.filter _
  have hlt := Emit.lt_of_mem_selected options hpackage
  simp only [Emit.bundle, Emit.roots, List.filter_flatMap]
  rw [Emit.flatMap_of_key hkeys hpackage]
  · refine List.filter_congr fun d hd => ?_
    obtain ⟨index, -, rfl⟩ := List.mem_map.mp hd
    simp [Emit.writes, javascript]
  · intro other hother hne
    rw [List.filter_eq_nil_iff]
    intro d hd hwrites
    obtain ⟨index, -, rfl⟩ := List.mem_map.mp hd
    simp only [Emit.writes, Bool.and_eq_true, beq_iff_eq] at hwrites
    exact hne ((modulePath_eq_iff hfit (Emit.lt_of_mem_selected options hother) hlt).mp hwrites.2)

/-- The files are the modules of the selected packages that have something to write. -/
theorem mem_files
    (f : OutputFile) :
    f ∈ (emit s [javascript] options).files ↔
      ∃ package ∈ Emit.selected s options, accepted s package ≠ [] ∧
        f = moduleFile s options.placement package := by
  have hnames : ([javascript].map (·.name)).Nodup := List.nodup_singleton _
  have hfile : ∀ package ∈ Emit.selected s options,
      (Emit.bundle s options javascript (modulePath (s.package package))).file s
        options.placement = moduleFile s options.placement package := by
    intro package hpackage
    rw [Emit.Bundle.file, decls_bundle hfit hpackage]
    rfl
  rw [Emit.files_eq_bundles s options hnames, List.mem_map]
  constructor
  · rintro ⟨g, hg, rfl⟩
    obtain ⟨b, hb, d, hd, hnone, rfl⟩ := (Emit.mem_bundles s options hnames g).mp hg
    obtain rfl := List.mem_singleton.mp hb
    obtain ⟨hpackage, hroot⟩ := (Emit.mem_roots_iff options d).mp hd
    refine ⟨d.package, hpackage, List.ne_nil_of_mem (a := d) ?_, hfile _ hpackage⟩
    exact List.mem_filter.mpr ⟨hroot, by simp [hnone]⟩
  · rintro ⟨package, hpackage, hne, rfl⟩
    refine ⟨_, ?_, hfile package hpackage⟩
    obtain ⟨d, hd⟩ := List.exists_mem_of_ne_nil _ hne
    obtain ⟨hroot, hnone⟩ := List.mem_filter.mp hd
    obtain ⟨index, -, rfl⟩ := List.mem_map.mp hroot
    refine (Emit.mem_bundles s options hnames _).mpr ⟨javascript, List.mem_singleton_self _,
      ⟨package, index⟩, ?_, Option.isNone_iff_eq_none.mp hnone, rfl⟩
    exact (Emit.mem_roots_iff options _).mpr ⟨hpackage, hroot⟩

theorem belongsTo_moduleFile
    {placement : Placement}
    {selection : List Nat}
    {package : Nat}
    (hpackage : package < s.packages.length) :
    belongsTo s selection (moduleFile s placement package) = true ↔ package ∈ selection := by
  simp only [belongsTo, moduleFile, List.any_eq_true, Bool.and_eq_true, decide_eq_true_eq,
    beq_iff_eq]
  constructor
  · rintro ⟨other, hother, hlt, hpath⟩
    rwa [(modulePath_eq_iff hfit hpackage hlt).mp hpath]
  · intro hmem
    exact ⟨package, hmem, hpackage, rfl⟩

/-- Writing some packages gives their files among those of all packages, in the same order. -/
theorem files_of_selection
    {placement : Placement}
    {selection : List Nat}
    (hne : selection ≠ []) :
    (emit s [javascript] ⟨placement, selection⟩).files =
      (emit s [javascript] ⟨placement, []⟩).files.filter (belongsTo s selection) := by
  have hpairwise : ∀ selection, (emit s [javascript] ⟨placement, selection⟩).files.Pairwise _ :=
    fun selection => Emit.pairwise_files s ⟨placement, selection⟩
  have hleft := hpairwise selection
  have hright := (hpairwise []).filter (belongsTo s selection)
  refine List.Perm.eq_of_pairwise (fun f g _ _ hfg hgf => absurd hgf hfg.asymm) hleft hright ?_
  refine (List.perm_ext_iff_of_nodup ?_ ?_).mpr fun f => ?_
  · exact hleft.imp fun h heq => (heq ▸ h).false
  · exact hright.imp fun h heq => (heq ▸ h).false
  · simp only [List.mem_filter, mem_files hfit, Emit.mem_selected_iff]
    constructor
    · rintro ⟨package, ⟨hlt, hselected⟩, haccepted, rfl⟩
      refine ⟨⟨package, ⟨hlt, .inl trivial⟩, haccepted, rfl⟩, ?_⟩
      exact (belongsTo_moduleFile hfit hlt).mpr (hselected.resolve_left hne)
    · rintro ⟨⟨package, ⟨hlt, -⟩, haccepted, rfl⟩, hbelongs⟩
      exact ⟨package, ⟨hlt, .inr ((belongsTo_moduleFile hfit hlt).mp hbelongs)⟩, haccepted, rfl⟩

end Selection

end JavaScript
end Target

/-- Modules of files that resolve stand for packages, and writing some packages is a filter.  No two
packages have a module with the same path; the files of a selection are the modules of those of its
packages that have a declaration which is not refused, and a module holds the fragments of the
declarations of its own package only.  A selection that is not empty gives those files that all
packages give and that belong to it, and the errors of its own declarations. -/
theorem resolve_modules
    {options : ResolveOptions}
    {files : List SourceFile}
    {r : Resolved}
    (h : resolve options files = .ok r)
    (hnames : ∀ f ∈ files, f.identity.name.IsValid)
    (placement : Placement) :
    (∀ i < r.schema.packages.length, ∀ j < r.schema.packages.length,
      Target.JavaScript.modulePath (r.schema.package i) =
        Target.JavaScript.modulePath (r.schema.package j) → i = j) ∧
      (∀ selection f, f ∈ (emit r.schema [Target.javascript] ⟨placement, selection⟩).files ↔
        ∃ package < r.schema.packages.length, (selection = [] ∨ package ∈ selection) ∧
          Target.JavaScript.accepted r.schema package ≠ [] ∧
          f = Target.JavaScript.moduleFile r.schema placement package) ∧
      ∀ selection ≠ [],
        (emit r.schema [Target.javascript] ⟨placement, selection⟩).files =
            (emit r.schema [Target.javascript] ⟨placement, []⟩).files.filter
              (Target.JavaScript.belongsTo r.schema selection) ∧
          (emit r.schema [Target.javascript] ⟨placement, []⟩).errors =
            (Emit.roots r.schema ⟨placement, []⟩).filterMap
              (Target.javascript.error? r.schema) ∧
          (emit r.schema [Target.javascript] ⟨placement, selection⟩).errors =
            ((Emit.roots r.schema ⟨placement, []⟩).filter
              fun d => selection.contains d.package).filterMap
                (Target.javascript.error? r.schema) := by
  have hfit := Resolve.namespacesFit_of_resolve h hnames
  refine ⟨fun i hi j hj => (Target.modulePath_eq_iff hfit hi hj).mp, fun selection f => ?_,
    fun selection hne => ⟨Target.JavaScript.files_of_selection hfit hne, ?_, ?_⟩⟩
  · simp only [Target.JavaScript.mem_files hfit, Emit.mem_selected_iff, and_assoc]
  · rw [Emit.errors_eq, List.flatMap_singleton]
  · rw [Emit.errors_eq, List.flatMap_singleton, Target.JavaScript.roots_of_selection hne]

/-- Of two versions of a package, the second has its module alone. -/
theorem resolve_modules_rooms :
    resolve Sample.options [Sample.rooms 0 1, Sample.rooms 1 2] = .ok ⟨Sample.roomSchema, []⟩ ∧
      (∀ f ∈ [Sample.rooms 0 1, Sample.rooms 1 2], f.identity.name.IsValid) ∧
      Target.JavaScript.modulePath (Sample.roomSchema.package 1) = ["rooms", "_2_0_0.js"] ∧
      ∀ f, f ∈ (emit Sample.roomSchema [Target.javascript] ⟨.last, [1]⟩).files ↔
        f = Target.JavaScript.moduleFile Sample.roomSchema .last 1 := by
  obtain ⟨-, hfiles, -⟩ := resolve_modules Sample.resolve_rooms Sample.isValid_rooms .last
  refine ⟨Sample.resolve_rooms, Sample.isValid_rooms, by decide +kernel, fun f => ?_⟩
  rw [hfiles [1] f]
  constructor
  · rintro ⟨package, -, hselected, -, rfl⟩
    simp only [List.cons_ne_nil, List.mem_singleton, false_or] at hselected
    rw [hselected]
  · rintro rfl
    exact ⟨1, by decide, .inr (List.mem_singleton_self 1), by decide, rfl⟩

end Schemata
