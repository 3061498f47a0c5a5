import Schemata.Proofs.Emit.Account
import Schemata.Proofs.Naming.Namespace

/-!
# Which declarations share a file

A target with one file for each package names the file for the namespace, and
a target with one file for each outermost declaration adds the identifier of
the declaration.  JavaScript leaves the parts of a namespace as they are, so
its files keep packages apart.  Swift and C# spell them, and there the files of
packages whose namespaces are spelled alike are the same file.

**Results.**
* `resolve_paths`: when two declarations share a file, what the files hold
  where no two packages are spelled alike, and a rule for names that is enough
  for this.
* `exists_shared_file`: two packages with one file.
-/

namespace Schemata

namespace Emit

section Paths

theorem namespaceFile_concat
    (extension : String)
    (before : List String)
    (last : String) :
    namespaceFile extension (before ++ [last]) = before ++ [s!"{last}.{extension}"] := by
  induction before with
  | nil =>
      rfl
  | cons first rest ih =>
      obtain ⟨next, more, hcons⟩ := List.exists_cons_of_ne_nil (List.concat_ne_nil last rest)
      rw [List.cons_append, hcons, namespaceFile, ← hcons, ih, List.cons_append]
      simp

/-- The path of a file shows the segments that it is named for. -/
theorem namespaceFile_eq_iff
    (extension : String)
    {as bs : List String}
    (has : as ≠ [])
    (hbs : bs ≠ []) :
    namespaceFile extension as = namespaceFile extension bs ↔ as = bs := by
  rw [← List.dropLast_append_getLast has, ← List.dropLast_append_getLast hbs,
    namespaceFile_concat, namespaceFile_concat, List.append_singleton_inj,
    List.append_singleton_inj, String.append_left_inj, String.append_left_inj]
  rfl

theorem namespaceSegments_ne_nil
    (casing : Option Naming.Casing)
    {ns : Namespace}
    (h : ns.WellFormed) :
    namespaceSegments casing ns ≠ [] := by
  simp [namespaceSegments, h.ne_nil]

end Paths

section Roots

variable {s : Schema}
variable (hs : s.Linked)
variable (options : EmitOptions)

theorem mem_roots_iff
    (d : DeclId) :
    d ∈ roots s options ↔ d.package ∈ selected s options ∧ d ∈ s.rootsOf d.package := by
  simp only [roots, List.mem_flatMap]
  constructor
  · rintro ⟨package, hpackage, hd⟩
    obtain ⟨index, hindex, rfl⟩ := List.mem_map.mp hd
    exact ⟨hpackage, hd⟩
  · rintro ⟨hpackage, hd⟩
    exact ⟨d.package, hpackage, hd⟩

theorem mem_selected_iff
    {package : Nat} :
    package ∈ selected s options ↔
      package < s.packages.length ∧ (options.packages = [] ∨ package ∈ options.packages) := by
  simp [selected]

theorem lt_of_mem_selected
    {package : Nat}
    (h : package ∈ selected s options) :
    package < s.packages.length :=
  ((mem_selected_iff options).mp h).1

include hs

theorem mem_ids_of_mem_roots
    {d : DeclId}
    (hd : d ∈ roots s options) :
    d ∈ s.ids := by
  obtain ⟨hpackage, hroot⟩ := (mem_roots_iff options d).mp hd
  exact hs.mem_ids_of_mem_rootsOf (lt_of_mem_selected options hpackage) hroot

theorem nodup_roots :
    (roots s options).Nodup := by
  unfold roots
  rw [List.nodup_flatMap]
  constructor
  · intro package hpackage
    have hforest := hs.forest _ _ (s.getElem?_package (lt_of_mem_selected options hpackage))
    exact hforest.rootNames.of_map.map fun i j h => (DeclId.mk.inj h).2
  · refine (List.nodup_range.filter _).imp fun {i j} hne d hi hj => hne ?_
    obtain ⟨index, -, rfl⟩ := List.mem_map.mp hi
    obtain ⟨index', -, heq⟩ := List.mem_map.mp hj
    exact (DeclId.mk.inj heq).1.symm

end Roots

end Emit

namespace Target

open Naming (SameWords)

variable {s : Schema}
variable {a b : DeclId}

section Paths

variable (hfit : s.NamespacesFit)
include hfit

/-- Modules keep packages apart. -/
theorem modulePath_eq_iff
    {i j : Nat}
    (hi : i < s.packages.length)
    (hj : j < s.packages.length) :
    JavaScript.modulePath (s.package i) = JavaScript.modulePath (s.package j) ↔ i = j := by
  have hwi := hfit.wellFormed_package hi
  have hwj := hfit.wellFormed_package hj
  have hpath : JavaScript.modulePath (s.package i) = JavaScript.modulePath (s.package j) ↔
      (s.package i).ns = (s.package j).ns := by
    rw [← Emit.namespaceSegments_none_eq_iff hwi hwj]
    exact Emit.namespaceFile_eq_iff "js" (Emit.namespaceSegments_ne_nil none hwi)
      (Emit.namespaceSegments_ne_nil none hwj)
  rw [hpath]
  constructor
  · exact hfit.eq_of_ns hi hj
  · intro h
    rw [h]

variable (ha : a ∈ s.ids)
variable (hb : b ∈ s.ids)
include ha hb

theorem path_javascript_eq_iff :
    javascript.path s a = javascript.path s b ↔ a.package = b.package :=
  modulePath_eq_iff hfit ((s.mem_ids_iff a).mp ha).1 ((s.mem_ids_iff b).mp hb).1

theorem path_swift_eq_iff :
    swift.path s a = swift.path s b ↔
      (s.package a.package).ns.Alike (s.package b.package).ns := by
  have hwa := hfit.wellFormed_package ((s.mem_ids_iff a).mp ha).1
  have hwb := hfit.wellFormed_package ((s.mem_ids_iff b).mp hb).1
  rw [← Emit.namespaceSegments_upperCamel_eq_iff]
  exact Emit.namespaceFile_eq_iff "swift" (Emit.namespaceSegments_ne_nil _ hwa)
    (Emit.namespaceSegments_ne_nil _ hwb)

end Paths

theorem path_csharp_eq_iff :
    csharp.path s a = csharp.path s b ↔
      (s.package a.package).ns.Alike (s.package b.package).ns ∧
        SameWords (s.decl a).name (s.decl b).name := by
  simp only [csharp, CSharp.path, CSharp.segments, CSharp.typeIdent, List.append_singleton_inj,
    String.append_left_inj, Emit.namespaceSegments_upperCamel_eq_iff]
  rw [← Emit.typeIdent_eq_iff .csharp]
  rfl

/-- The declarations of a bundle are written to one file. -/
theorem path_eq_of_mem_bundle
    {options : EmitOptions}
    {backend : Backend}
    {path : List String}
    {d : DeclId}
    (hd : d ∈ (Emit.bundle s options backend path).decls) :
    d ∈ Emit.roots s options ∧ backend.path s d = path := by
  obtain ⟨hroot, hwrites⟩ := List.mem_filter.mp hd
  simp only [Emit.writes, Bool.and_eq_true, beq_iff_eq] at hwrites
  exact ⟨hroot, hwrites.2⟩

end Target

namespace Schema

/-- No two outermost declarations of one package are spelled alike. -/
def RootsApart
    (s : Schema) : Prop :=
  ∀ package < s.packages.length, ∀ a ∈ s.rootsOf package, ∀ b ∈ s.rootsOf package,
    Naming.SameWords (s.decl a).name (s.decl b).name → a = b

theorem Linked.eq_of_root_name
    {s : Schema}
    (hs : s.Linked)
    {package : Nat}
    (hpackage : package < s.packages.length)
    {a b : DeclId}
    (ha : a ∈ s.rootsOf package)
    (hb : b ∈ s.rootsOf package)
    (hname : (s.decl a).name = (s.decl b).name) :
    a = b := by
  have hforest := hs.forest _ _ (s.getElem?_package hpackage)
  obtain ⟨i, hi, rfl⟩ := List.mem_map.mp ha
  obtain ⟨j, hj, rfl⟩ := List.mem_map.mp hb
  rw [List.inj_on_of_nodup_map hforest.rootNames hi hj hname]

/-- Plain names are spelled apart. -/
theorem Linked.rootsApart
    {s : Schema}
    (hs : s.Linked)
    (hplain : ∀ package < s.packages.length, ∀ a ∈ s.rootsOf package,
      Naming.isPlain (s.decl a).name = true) :
    s.RootsApart := by
  intro package hlt a ha b hb hsame
  have hname := hsame.eq_of_isPlain (hplain package hlt a ha) (hplain package hlt b hb)
  exact hs.eq_of_root_name hlt ha hb hname

end Schema

section Files

variable {s : Schema}
variable (hs : s.Linked)
variable (hfit : s.NamespacesFit)
variable {options : EmitOptions}
variable {b : Backend}

include hs hfit

/-- Declarations of one file are of one package. -/
theorem Target.package_eq_of_path
    (hb : b ∈ Target.all)
    (hapart : b = Target.javascript ∨ s.PackagesApart)
    {d e : DeclId}
    (hd : d ∈ Emit.roots s options)
    (he : e ∈ Emit.roots s options)
    (hpath : b.path s d = b.path s e) :
    d.package = e.package := by
  have hids := Emit.mem_ids_of_mem_roots hs options hd
  have hids' := Emit.mem_ids_of_mem_roots hs options he
  have hpackages : (s.package d.package).ns.Alike (s.package e.package).ns →
      s.PackagesApart → d.package = e.package := fun halike happart =>
    happart _ ((s.mem_ids_iff d).mp hids).1 _ ((s.mem_ids_iff e).mp hids').1 halike
  simp only [Target.all, List.mem_cons, List.not_mem_nil, or_false] at hb
  rcases hb with rfl | rfl | rfl
  · refine hpackages (Target.path_csharp_eq_iff.mp hpath).1 (hapart.resolve_left fun heq => ?_)
    exact absurd (congrArg Backend.name heq) (by decide)
  · refine hpackages ((Target.path_swift_eq_iff hfit hids hids').mp hpath)
      (hapart.resolve_left fun heq => ?_)
    exact absurd (congrArg Backend.name heq) (by decide)
  · exact (Target.path_javascript_eq_iff hfit hids hids').mp hpath

/-- A file of C# has one declaration. -/
theorem Target.eq_of_path_csharp
    (hpackages : s.PackagesApart)
    (hroots : s.RootsApart)
    {d e : DeclId}
    (hd : d ∈ Emit.roots s options)
    (he : e ∈ Emit.roots s options)
    (hpath : Target.csharp.path s d = Target.csharp.path s e) :
    d = e := by
  have hpackage := Target.package_eq_of_path hs hfit (by simp [Target.all]) (.inr hpackages) hd he
    hpath
  have hroot := ((Emit.mem_roots_iff options d).mp hd).2
  rw [hpackage] at hroot
  obtain ⟨hselected, hroot'⟩ := (Emit.mem_roots_iff options e).mp he
  exact hroots e.package (Emit.lt_of_mem_selected options hselected) d hroot e hroot'
    (Target.path_csharp_eq_iff.mp hpath).2

end Files

/-- When declarations of files that resolve share a file of a target, and what the files of a
target hold.  JavaScript keeps packages apart; Swift and C# keep them apart where no two namespaces
are spelled alike, and then a file of C# holds one declaration if no two outermost declarations of
a package are spelled alike either.  Parts without underscores and versions in full are enough for
the one, and plain names are enough for the other. -/
theorem resolve_paths
    {options : ResolveOptions}
    {files : List SourceFile}
    {r : Resolved}
    (h : resolve options files = .ok r)
    (hnames : ∀ f ∈ files, f.identity.name.IsValid) :
    (∀ a ∈ r.schema.ids, ∀ b ∈ r.schema.ids,
      (Target.javascript.path r.schema a = Target.javascript.path r.schema b ↔
          a.package = b.package) ∧
        (Target.swift.path r.schema a = Target.swift.path r.schema b ↔
          (r.schema.package a.package).ns.Alike (r.schema.package b.package).ns) ∧
        (Target.csharp.path r.schema a = Target.csharp.path r.schema b ↔
          (r.schema.package a.package).ns.Alike (r.schema.package b.package).ns ∧
            Naming.SameWords (r.schema.decl a).name (r.schema.decl b).name)) ∧
      (∀ emitOptions, ∀ g ∈ Emit.bundles r.schema emitOptions Target.all,
        (g.backend = Target.javascript ∨ r.schema.PackagesApart →
            ∃ package, ∀ d ∈ g.decls, d.package = package) ∧
          (g.backend = Target.csharp → r.schema.PackagesApart → r.schema.RootsApart →
            ∃ d, g.decls = [d])) ∧
      (options.scheme = .underscored →
        (∀ f ∈ files, ∀ part ∈ f.identity.name.parts, '_' ∉ part.toList) →
          r.schema.PackagesApart) ∧
      ((∀ package < r.schema.packages.length, ∀ a ∈ r.schema.rootsOf package,
          Naming.isPlain (r.schema.decl a).name = true) →
        r.schema.RootsApart) := by
  have hfit := Resolve.namespacesFit_of_resolve h hnames
  have hs : r.schema.Linked := linked_of_resolvedFrom (Resolve.resolvedFrom_of_resolve h)
  refine ⟨fun a ha b hb => ⟨Target.path_javascript_eq_iff hfit ha hb,
    Target.path_swift_eq_iff hfit ha hb, Target.path_csharp_eq_iff⟩, fun emitOptions g hg => ?_,
    fun hscheme hplain => hfit.packagesApart (Resolve.isSimple_of_underscored h hscheme hplain),
    hs.rootsApart⟩
  have hbackends : (Target.all.map (·.name)).Nodup := by
    decide
  obtain ⟨b, hb, e, he, hnone, rfl⟩ := (Emit.mem_bundles r.schema emitOptions hbackends g).mp hg
  refine ⟨fun hapart => ⟨e.package, fun d hd => ?_⟩, ?_⟩
  · obtain ⟨hroot, hpath⟩ := Target.path_eq_of_mem_bundle hd
    exact Target.package_eq_of_path hs hfit hb hapart hroot he hpath
  · rintro rfl hpackages hroots
    refine ⟨e, ?_⟩
    have hnodup := (Emit.nodup_roots hs emitOptions).filter
      (Emit.writes r.schema Target.csharp (Target.csharp.path r.schema e))
    refine List.perm_singleton.mp
      ((List.perm_ext_iff_of_nodup hnodup (List.nodup_singleton e)).mpr fun d => ?_)
    rw [List.mem_singleton]
    constructor
    · intro hd
      obtain ⟨hroot, hpath⟩ := Target.path_eq_of_mem_bundle hd
      exact Target.eq_of_path_csharp hs hfit hpackages hroots hroot he hpath
    · rintro rfl
      exact List.mem_filter.mpr ⟨he, by simp [Emit.writes, hnone]⟩

namespace Sample

/-- A package with one type and no fields in it. -/
def single
    (package : Nat)
    (identity : Identity)
    (ns : Namespace)
    (name : String) :
    Package :=
  { identity
    ns
    doc := []
    decls := [⟨⟨package, 0⟩, name, [], none, [], .type [], default⟩]
    roots := [0] }

/-- The schema of two versions of the rooms. -/
def roomSchema : Schema :=
  ⟨[single 0 ⟨⟨["rooms"]⟩, some ⟨1, 0, 0, [], []⟩⟩ ⟨["rooms"], some "_1_0_0"⟩ "Room",
    single 1 ⟨⟨["rooms"]⟩, some ⟨2, 0, 0, [], []⟩⟩ ⟨["rooms"], some "_2_0_0"⟩ "Room"]⟩

theorem resolve_rooms :
    resolve options [rooms 0 1, rooms 1 2] = .ok ⟨roomSchema, []⟩ := by
  with_unfolding_all rfl

theorem isValid_rooms :
    ∀ f ∈ [rooms 0 1, rooms 1 2], f.identity.name.IsValid := by
  intro f hf
  refine ⟨"rooms", ?_⟩
  rcases List.mem_pair.mp hf with rfl | rfl <;> decide +kernel

/-- A file with one type, in a package whose name has one part. -/
def twin
    (file : Nat)
    (part : String) :
    SourceFile :=
  { file
    identity := ⟨⟨[part]⟩, none⟩
    tree :=
      { doc := []
        imports := []
        decls := [⟨[], [], ⟨"A", default⟩, .type [], default⟩] } }

/-- The schema of two packages whose names have the same words. -/
def twinSchema : Schema :=
  ⟨[single 0 ⟨⟨["foo_bar"]⟩, none⟩ ⟨["foo_bar"], none⟩ "A",
    single 1 ⟨⟨["foo__bar"]⟩, none⟩ ⟨["foo__bar"], none⟩ "A"]⟩

theorem resolve_twins :
    resolve options [twin 0 "foo_bar", twin 1 "foo__bar"] = .ok ⟨twinSchema, []⟩ := by
  with_unfolding_all rfl

end Sample

theorem resolve_paths_rooms :
    resolve Sample.options [Sample.rooms 0 1, Sample.rooms 1 2] = .ok ⟨Sample.roomSchema, []⟩ ∧
      (∀ f ∈ [Sample.rooms 0 1, Sample.rooms 1 2], f.identity.name.IsValid) ∧
      Target.csharp.path Sample.roomSchema ⟨0, 0⟩ ≠ Target.csharp.path Sample.roomSchema ⟨1, 0⟩ ∧
      ∀ emitOptions, ∀ g ∈ Emit.bundles Sample.roomSchema emitOptions Target.all,
        g.backend = Target.csharp → ∃ d, g.decls = [d] := by
  obtain ⟨hpaths, hfiles, hpackages, hroots⟩ :=
    resolve_paths Sample.resolve_rooms Sample.isValid_rooms
  have hapart : Sample.roomSchema.PackagesApart := hpackages rfl (by decide)
  have hplain : Sample.roomSchema.RootsApart := hroots (by decide)
  refine ⟨Sample.resolve_rooms, Sample.isValid_rooms, ?_, fun emitOptions g hg hcsharp =>
    (hfiles emitOptions g hg).2 hcsharp hapart hplain⟩
  intro heq
  have halike := ((hpaths ⟨0, 0⟩ (by decide) ⟨1, 0⟩ (by decide)).2.2.mp heq).1
  exact absurd (hapart 0 (by decide) 1 (by decide) halike) (by decide)

/-- Packages whose names differ in underscores alone share the files of Swift and C#. -/
theorem exists_shared_file :
    resolve Sample.options [Sample.twin 0 "foo_bar", Sample.twin 1 "foo__bar"] =
        .ok ⟨Sample.twinSchema, []⟩ ∧
      ⟨0, 0⟩ ∈ Sample.twinSchema.ids ∧ ⟨1, 0⟩ ∈ Sample.twinSchema.ids ∧
      Target.swift.path Sample.twinSchema ⟨0, 0⟩ = Target.swift.path Sample.twinSchema ⟨1, 0⟩ ∧
      Target.csharp.path Sample.twinSchema ⟨0, 0⟩ =
        Target.csharp.path Sample.twinSchema ⟨1, 0⟩ := by
  refine ⟨Sample.resolve_twins, by decide, by decide, ?_, ?_⟩ <;> decide +kernel

end Schemata
