import Schemata.Project.Select
import Schemata.Proofs.Package.Notation
import Schemata.Proofs.Resolve.FileOrder
import Schemata.Proofs.Resolve.Reference
import Schemata.Proofs.Tree.Name

/-!
# Full names as addresses

The full name of a declaration is the written form of the identity of its
package, and then its path.  Looking it up takes it apart again: neither an
identity nor the name of a declaration has a colon, so the first mark ends the
identity and the others part the path.  The identity selects its own package, and
every package of its name if it has no version; paths are distinct within a
package.

**Results.** `lookup?_eq_some_iff`, `resolve_addresses`.
-/

namespace Schemata

namespace Schema

section Selection

variable (s : Schema)

/-- The package has a version, or no other package has its name. -/
def HasOwnSelector
    (package : Nat) : Prop :=
  (s.package package).identity.version.isSome = true ∨
    ∀ other < s.packages.length,
      (s.package other).identity.name = (s.package package).identity.name → other = package

/-- The identities of the packages with a name, in their written form. -/
def identitiesOf
    (name : PackageName) :
    List String :=
  (s.packages.filter fun p => p.identity.name == name).map (·.identity.display)

/-- The indices of the packages that a name and a version select. -/
def selectedBy
    (identity : Identity) :
    List Nat :=
  (List.range s.packages.length).filter fun i =>
    selects identity.name identity.version (s.package i)

variable {s : Schema}

theorem map_package_range :
    (List.range s.packages.length).map s.package = s.packages := by
  refine List.ext_getElem (by simp) fun i hi _ => ?_
  have hlt : i < s.packages.length := by simpa using hi
  simp [package, hlt]

variable {package : Nat}
variable (hpackage : package < s.packages.length)

include hpackage

theorem mem_selectedBy_self :
    package ∈ s.selectedBy (s.package package).identity := by
  simp [selectedBy, selects, hpackage]

/-- The written form of the identity of a package selects by its name and version. -/
theorem selectPackages_display
    (hvalid : (s.package package).identity.IsValid) :
    s.selectPackages (s.package package).identity.display =
      .ok (s.selectedBy (s.package package).identity) := by
  have hne : (s.selectedBy (s.package package).identity).isEmpty = false :=
    List.isEmpty_eq_false_iff.mpr (List.ne_nil_of_mem (mem_selectedBy_self hpackage))
  unfold selectPackages
  rw [hvalid.parseSelector?_display]
  unfold selectedBy at hne ⊢
  dsimp only
  rw [hne]
  rfl

/-- A package with a selector of its own is selected alone. -/
theorem selectedBy_eq_singleton
    (hdistinct : (s.packages.map (·.identity)).Nodup)
    (hown : s.HasOwnSelector package) :
    s.selectedBy (s.package package).identity = [package] := by
  have hsame : ∀ i ∈ List.range s.packages.length,
      selects (s.package package).identity.name (s.package package).identity.version
        (s.package i) = (i == package) := by
    intro i hi
    have hi := List.mem_range.mp hi
    rw [Bool.eq_iff_iff, beq_iff_eq]
    constructor
    · intro hselects
      simp only [selects, Bool.and_eq_true, beq_iff_eq, Bool.or_eq_true] at hselects
      obtain ⟨hname, hversion⟩ := hselects
      rcases hown with hsome | hother
      · have hversion := hversion.resolve_left fun hnone => by
          rw [Option.isNone_iff_eq_none] at hnone
          rw [hnone] at hsome
          cases hsome
        have hidentity := Identity.eq_of_parts hname hversion
        refine (List.getElem?_inj (by simpa using hi) hdistinct).mp ?_
        rw [List.getElem?_map, List.getElem?_map]
        simpa [Schema.package, hi, hpackage] using hidentity
      · exact hother i hi hname
    · rintro rfl
      simp [selects]
  rw [selectedBy, List.filter_congr hsame, List.filter_beq,
    List.count_eq_one_of_mem List.nodup_range (List.mem_range.mpr hpackage)]
  rfl

/-- A package without a selector of its own is not selected alone. -/
theorem selectedBy_ne_singleton
    (hown : ¬ s.HasOwnSelector package)
    (i : Nat) :
    s.selectedBy (s.package package).identity ≠ [i] := by
  obtain ⟨hnone, other, hother, hname, hne⟩ :
      (s.package package).identity.version = none ∧
        ∃ other < s.packages.length,
          (s.package other).identity.name = (s.package package).identity.name ∧
            other ≠ package := by
    simpa [HasOwnSelector] using hown
  intro heq
  have hself := mem_selectedBy_self hpackage
  have hmem : other ∈ s.selectedBy (s.package package).identity := by
    simp [selectedBy, selects, hother, hname, hnone]
  rw [heq, List.mem_singleton] at hself hmem
  exact hne (hmem.trans hself.symm)

omit hpackage in
/-- Without a version, all packages of a name are selected. -/
theorem map_display_selectedBy
    {identity : Identity}
    (hnone : identity.version = none) :
    (s.selectedBy identity).map (fun i => (s.package i).identity.display) =
      s.identitiesOf identity.name := by
  have hselects : (fun i => selects identity.name identity.version (s.package i)) =
      (fun p => p.identity.name == identity.name) ∘ s.package := by
    funext i
    simp [selects, hnone]
  rw [identitiesOf, ← map_package_range (s := s), List.filter_map, List.map_map, selectedBy,
    hselects]
  rfl

end Selection

section Lookup

variable {s : Schema}
variable {text : String}
variable {before after : List Char}

/-- What is looked up when a text has a selector and a path. -/
theorem lookupDecl_of_cut
    (hcut : Text.cutAt? [':', ':'] text.toList = some (before, after))
    (hafter : after ≠ []) :
    s.lookupDecl text =
      match s.selectPackages (String.ofList before) with
      | .error e => .error e
      | .ok [package] =>
          match s.lookup? package (Text.splitOn "::" (String.ofList after)) with
          | some id => .ok id
          | none => .error (.unknownDecl (s.package package).identity.display (String.ofList after))
      | .ok candidates =>
          .error (.ambiguousPackage (String.ofList before)
            (candidates.map fun i => (s.package i).identity.display)) := by
  obtain ⟨c, cs, rfl⟩ := List.exists_cons_of_ne_nil hafter
  unfold lookupDecl
  generalize Text.cutAt? [':', ':'] text.toList = cut at hcut ⊢
  subst hcut
  rfl

/-- A selector of several packages is ambiguous. -/
theorem lookupDecl_of_many
    (hcut : Text.cutAt? [':', ':'] text.toList = some (before, after))
    (hafter : after ≠ [])
    {candidates : List Nat}
    (hselected : s.selectPackages (String.ofList before) = .ok candidates)
    (hmany : ∀ i, candidates ≠ [i]) :
    s.lookupDecl text =
      .error (.ambiguousPackage (String.ofList before)
        (candidates.map fun i => (s.package i).identity.display)) := by
  rw [lookupDecl_of_cut hcut hafter, hselected]
  rcases candidates with _ | ⟨i, _ | ⟨j, rest⟩⟩
  · rfl
  · exact absurd rfl (hmany i)
  · rfl

theorem lookupDecl_eq_ok_iff
    {id : DeclId} :
    s.lookupDecl text = .ok id ↔
      ∃ selector path : String,
        Text.cutAt? [':', ':'] text.toList = some (selector.toList, path.toList) ∧
          path.toList ≠ [] ∧ s.selectPackages selector = .ok [id.package] ∧
            s.lookup? id.package (Text.splitOn "::" path) = some id := by
  constructor
  · intro h
    cases hcut : Text.cutAt? [':', ':'] text.toList with
    | none =>
        rw [lookupDecl, hcut] at h
        cases h
    | some parts =>
        obtain ⟨before, after⟩ := parts
        have hafter : after ≠ [] := by
          rintro rfl
          rw [lookupDecl, hcut] at h
          cases h
        rw [lookupDecl_of_cut hcut hafter] at h
        split at h
        · cases h
        · rename_i package hselected
          split at h
          · rename_i found hfound
            cases h
            obtain ⟨index, -, rfl⟩ := Option.map_eq_some_iff.mp hfound
            exact ⟨String.ofList before, String.ofList after, by simp, by simpa using hafter,
              hselected, hfound⟩
          · cases h
        · cases h
  · rintro ⟨selector, path, hcut, hpath, hselected, hfound⟩
    rw [lookupDecl_of_cut hcut hpath, String.ofList_toList, String.ofList_toList, hselected]
    dsimp only
    rw [hfound]

end Lookup

end Schema

/-- The packages have the identities of their files, no two of which are the same. -/
theorem Resolve.map_identity_of_resolve
    {options : ResolveOptions}
    {files : List SourceFile}
    {r : Resolved}
    (h : resolve options files = .ok r) :
    r.schema.packages.map (·.identity) = files.map (·.identity) ∧
      (files.map (·.identity)).Nodup := by
  obtain ⟨hclean, rfl⟩ := (Resolve.resolve_eq_ok_iff options files r).mp h
  rw [Resolve.errors_schema_eq_nil_iff, Resolve.errors_namespaces_eq_nil_iff] at hclean
  obtain ⟨⟨hdistinct, hassigned⟩, -⟩ := hclean
  refine ⟨List.ext_getElem? fun index => ?_, hdistinct⟩
  rw [List.getElem?_map, Resolve.getElem?_packages options files hdistinct hassigned,
    List.getElem?_map, Option.map_map]
  rfl

section Paths

variable {options : ResolveOptions}
variable {files : List SourceFile}
variable {s : Schema}

/-- In a package, a path leads to the declaration that has it. -/
theorem Resolve.ResolvedFrom.lookup?_eq_some_iff
    (h : Resolve.ResolvedFrom options files s)
    {package : Nat}
    {path : List String}
    {id : DeclId} :
    s.lookup? package path = some id ↔
      id ∈ s.ids ∧ id.package = package ∧ s.declPath id = path := by
  constructor
  · intro hfound
    obtain ⟨index, hindex, rfl⟩ := Option.map_eq_some_iff.mp hfound
    have hpackage : package < s.packages.length := by
      by_contra hge
      have habsent : s.package package = Package.absent := by
        rw [Schema.package, List.getElem?_eq_none (not_lt.mp hge), Option.getD_none]
      rw [habsent] at hindex
      rcases path with _ | ⟨first, _ | ⟨second, rest⟩⟩
      · cases hindex
      · cases hindex
      · cases hindex
    obtain ⟨f, hf, hbacks⟩ := h.backs (s.getElem?_package hpackage)
    have hforest := Resolve.tableOf_forest files f
    rw [hbacks.find?, hforest.walkFrom_eq_some_iff hforest.scope_roots, List.nil_append] at hindex
    obtain ⟨e, he⟩ := hindex.2.exists_entry
    refine ⟨(Reference.mem_ids_iff h _).mpr ⟨f, e, hf, he⟩, rfl, ?_⟩
    rw [Reference.declPath_eq h hf, hindex.2.pathAt hforest]
  · rintro ⟨hid, rfl, rfl⟩
    exact (linked_of_resolvedFrom h).lookup id hid

/-- The path of a declaration is made of names of types, if the declarations of the files are. -/
theorem Resolve.ResolvedFrom.isTypeName_of_mem_declPath
    (h : Resolve.ResolvedFrom options files s)
    (hnamed : ∀ f ∈ files, ∀ d ∈ f.tree.decls, d.Named IsTypeName)
    {id : DeclId}
    (hid : id ∈ s.ids) :
    s.declPath id ≠ [] ∧ ∀ name ∈ s.declPath id, IsTypeName name := by
  obtain ⟨f, e, hf, he⟩ := (Reference.mem_ids_iff h id).mp hid
  have hforest := Resolve.tableOf_forest files f
  have hleads := hforest.leads_pathAt he
  rw [Reference.declPath_eq h hf]
  refine ⟨hleads.ne_nil, fun name hname => ?_⟩
  have hdeclared := (Reference.mem_declared_iff files hf _ _).mpr ⟨_, e, he, rfl, hleads⟩
  simp only [Reference.declared, hf] at hdeclared
  have hnamed := hnamed f (List.mem_of_getElem? hf)
  exact (Tree.named_of_mem_listing hnamed hdeclared name hname).resolve_left List.not_mem_nil

end Paths

section FullNames

variable {s : Schema}
variable {id : DeclId}
variable (hvalid : (s.package id.package).identity.IsValid)
variable (hne : s.declPath id ≠ [])
variable (hnames : ∀ name ∈ s.declPath id, IsTypeName name)

include hvalid hne

/-- The first mark in a full name is the one behind the identity. -/
theorem Schema.cutAt?_displayName :
    Text.cutAt? [':', ':'] (s.displayName id).toList =
      some ((s.package id.package).identity.display.toList,
        (String.intercalate "::" (s.declPath id)).toList) := by
  obtain ⟨first, rest, hpath⟩ := List.exists_cons_of_ne_nil hne
  have hlist : (s.displayName id).toList =
      (s.package id.package).identity.display.toList ++ [':', ':'] ++
        (String.intercalate "::" (s.declPath id)).toList := by
    rw [Schema.displayName, hpath, String.toList_intercalate, String.toList_intercalate,
      List.map_cons, List.map_cons, List.intercalate_cons_cons]
    simp
  rw [hlist, Text.cutAt?_append hvalid.colon_not_mem_display]

omit hvalid
include hnames

/-- The marks in a path part its names. -/
theorem Schema.splitOn_path :
    (String.intercalate "::" (s.declPath id)).toList ≠ [] ∧
      Text.splitOn "::" (String.intercalate "::" (s.declPath id)) = s.declPath id := by
  have hcolon : ∀ name ∈ s.declPath id, ':' ∉ name.toList := by
    intro name hname hmem
    have hchar := (hnames name hname).isIdentText ':' hmem
    exact absurd hchar (by decide)
  have hsplit := Text.splitOn_intercalate (show "::".toList = [':', ':'] from rfl) hne hcolon
  refine ⟨fun hempty => ?_, hsplit⟩
  obtain ⟨first, rest, hpath⟩ := List.exists_cons_of_ne_nil hne
  have hfirst := (hnames first (hpath ▸ List.mem_cons_self)).toList_ne_nil
  rw [String.toList_eq_nil_iff.mp hempty] at hsplit
  rw [← hsplit] at hpath
  cases hpath
  exact hfirst rfl

end FullNames

/-- Full names are addresses.  The full name of a declaration leads to it, if its package has a
version or is the only one of its name; otherwise it is ambiguous between all packages of that name.
A text that leads to a declaration is a selector of its package alone, and then its path. -/
theorem resolve_addresses
    {options : ResolveOptions}
    {files : List SourceFile}
    {r : Resolved}
    (h : resolve options files = .ok r)
    (hvalid : ∀ f ∈ files, f.identity.IsValid)
    (hparsed : ∀ f ∈ files, ∃ source, (Tree.parse f.file source).1 = f.tree) :
    (∀ id ∈ r.schema.ids,
      (r.schema.HasOwnSelector id.package →
        r.schema.lookupDecl (r.schema.displayName id) = .ok id) ∧
      (¬ r.schema.HasOwnSelector id.package →
        r.schema.lookupDecl (r.schema.displayName id) =
          .error (.ambiguousPackage (r.schema.package id.package).identity.name.display
            (r.schema.identitiesOf (r.schema.package id.package).identity.name)))) ∧
    ∀ text id, r.schema.lookupDecl text = .ok id →
      id ∈ r.schema.ids ∧ ∃ selector path : String,
        Text.cutAt? [':', ':'] text.toList = some (selector.toList, path.toList) ∧
          r.schema.selectPackages selector = .ok [id.package] ∧
            Text.splitOn "::" path = r.schema.declPath id := by
  have hresolved := Resolve.resolvedFrom_of_resolve h
  obtain ⟨hidentities, hdistinct⟩ := Resolve.map_identity_of_resolve h
  rw [← hidentities] at hdistinct
  have hnamed : ∀ f ∈ files, ∀ d ∈ f.tree.decls, d.Named IsTypeName := by
    intro f hf
    obtain ⟨source, hsource⟩ := hparsed f hf
    rw [← hsource]
    exact Tree.named_of_parse f.file source
  refine ⟨fun id hid => ?_, fun text id hfound => ?_⟩
  · have hpackage := ((r.schema.mem_ids_iff id).mp hid).1
    have hidentity : (r.schema.package id.package).identity.IsValid := by
      have hmem := List.mem_map_of_mem (f := Package.identity) (r.schema.package_mem hpackage)
      rw [hidentities] at hmem
      obtain ⟨f, hf, heq⟩ := List.mem_map.mp hmem
      exact heq ▸ hvalid f hf
    obtain ⟨hne, hnames⟩ := hresolved.isTypeName_of_mem_declPath hnamed hid
    have hcut := Schema.cutAt?_displayName hidentity hne
    obtain ⟨hpath, hsplit⟩ := Schema.splitOn_path hne hnames
    have hselected := Schema.selectPackages_display hpackage hidentity
    refine ⟨fun hown => ?_, fun hown => ?_⟩
    · rw [Schema.selectedBy_eq_singleton hpackage hdistinct hown] at hselected
      refine Schema.lookupDecl_eq_ok_iff.mpr ⟨_, _, hcut, hpath, hselected, ?_⟩
      rw [hsplit]
      exact (linked_of_resolvedFrom hresolved).lookup id hid
    · have hnone : (r.schema.package id.package).identity.version = none :=
        Option.not_isSome_iff_eq_none.mp fun hsome => hown (.inl hsome)
      rw [← String.ofList_toList (s := (r.schema.package id.package).identity.display)] at hselected
      rw [Schema.lookupDecl_of_many hcut hpath hselected
        (Schema.selectedBy_ne_singleton hpackage hown), String.ofList_toList,
        Schema.map_display_selectedBy hnone, Identity.display_of_none hnone]
  · obtain ⟨selector, path, hcut, -, hselected, hlookup⟩ := Schema.lookupDecl_eq_ok_iff.mp hfound
    obtain ⟨hid, -, hpath⟩ := hresolved.lookup?_eq_some_iff.mp hlookup
    exact ⟨hid, selector, path, hcut, hselected, hpath.symm⟩

namespace Sample

/-- A file with a type of rooms and a type of keys in it. -/
def keyed
    (file : Nat)
    (version : Option Version) :
    SourceFile :=
  { file
    identity := ⟨⟨["rooms"]⟩, version⟩
    tree :=
      { doc := []
        imports := []
        decls :=
          [⟨[], [], ⟨"Room", ⟨file, 5, 9⟩⟩,
            .type [.decl ⟨[], [], ⟨"Key", ⟨file, 17, 20⟩⟩, .type [], ⟨file, 12, 23⟩⟩],
            ⟨file, 0, 25⟩⟩] } }

/-- Rooms without a version, and the first version of them. -/
def keyedFiles : List SourceFile :=
  [keyed 0 none, keyed 1 (some ⟨1, 0, 0, [], []⟩)]

/-- The package of a file of rooms and keys. -/
def keyedPackage
    (package : Nat)
    (version : Option Version)
    (segment : Option String) :
    Package :=
  { identity := ⟨⟨["rooms"]⟩, version⟩
    ns := ⟨["rooms"], segment⟩
    doc := []
    decls :=
      [⟨⟨package, 0⟩, "Room", [], none, [1], .type [], ⟨package, 0, 25⟩⟩,
        ⟨⟨package, 1⟩, "Key", [], some 0, [], .type [], ⟨package, 12, 23⟩⟩]
    roots := [0] }

/-- The schema of rooms without a version and of the first version of them. -/
def keyedSchema : Schema :=
  ⟨[keyedPackage 0 none none, keyedPackage 1 (some ⟨1, 0, 0, [], []⟩) (some "_1_0_0")]⟩

theorem resolve_keyed :
    resolve options keyedFiles = .ok ⟨keyedSchema, []⟩ := by
  with_unfolding_all rfl

theorem isValid_keyed :
    ∀ f ∈ keyedFiles, f.identity.IsValid := by
  intro f hf
  rcases List.mem_pair.mp hf with rfl | rfl
  · exact ⟨⟨"rooms", by decide +kernel⟩, fun v hv => (by cases hv)⟩
  · exact ⟨⟨"rooms", by decide +kernel⟩, fun v hv => ⟨"1.0.0", by cases hv; decide +kernel⟩⟩

theorem parse_keyed :
    ∀ f ∈ keyedFiles, ∃ source, (Tree.parse f.file source).1 = f.tree := by
  intro f hf
  refine ⟨"type Room { type Key {} }", ?_⟩
  rcases List.mem_pair.mp hf with rfl | rfl
  · with_unfolding_all rfl
  · with_unfolding_all rfl

end Sample

theorem resolve_addresses_keyed :
    resolve Sample.options Sample.keyedFiles = .ok ⟨Sample.keyedSchema, []⟩ ∧
      (∀ f ∈ Sample.keyedFiles, f.identity.IsValid) ∧
      (∀ f ∈ Sample.keyedFiles, ∃ source, (Tree.parse f.file source).1 = f.tree) ∧
      Sample.keyedSchema.lookupDecl "rooms@1.0.0::Room::Key" = .ok ⟨1, 1⟩ ∧
      Sample.keyedSchema.lookupDecl "rooms::Room::Key" =
        .error (.ambiguousPackage "rooms" ["rooms", "rooms@1.0.0"]) := by
  obtain ⟨hnames, -⟩ :=
    resolve_addresses Sample.resolve_keyed Sample.isValid_keyed Sample.parse_keyed
  have hshared : ¬ Sample.keyedSchema.HasOwnSelector 0 := by
    rintro (hsome | hother)
    · cases hsome
    · exact absurd (hother 1 (by decide) rfl) (by decide)
  refine ⟨Sample.resolve_keyed, Sample.isValid_keyed, Sample.parse_keyed, ?_, ?_⟩
  · have hname : Sample.keyedSchema.displayName ⟨1, 1⟩ = "rooms@1.0.0::Room::Key" := by
      decide +kernel
    exact hname ▸ (hnames ⟨1, 1⟩ (by decide)).1 (.inl rfl)
  · have hname : Sample.keyedSchema.displayName ⟨0, 1⟩ = "rooms::Room::Key" := by
      decide +kernel
    exact hname ▸ (hnames ⟨0, 1⟩ (by decide)).2 hshared

end Schemata
