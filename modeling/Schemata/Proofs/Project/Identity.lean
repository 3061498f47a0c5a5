import Schemata.Proofs.Project.Discover
import Schemata.Proofs.Project.Path
import Schemata.Proofs.Resolve.DuplicatePackage

/-!
# Identities and paths

The source file of a package lies below the directories that the first parts of its
name say; the name of the file is the last part, with the version behind a dash.  A
part has no dash, dot or slash, and a version no slash, so the file is cut into its
names at the slashes, into stem and extension at the last dot, and into name and
version at the first dash.  What is found is the identity that was put in.

Discovery tells identities apart by their written forms and resolution by their names
and versions.  Both find the same identities to be equal.

**Results.** `Identity.IsValid.identity_join`, `discover_identities`.
-/

namespace Schemata

namespace Identity

/-- The name of the source file of an identity without its extension: the last part of the name,
and the version behind a dash. -/
def fileStem
    (identity : Identity) :
    String :=
  match identity.version with
  | none => identity.name.last
  | some v => identity.name.last ++ "-" ++ v.display

/-- The names on the way from a source directory to the source file of an identity. -/
def fileNames
    (identity : Identity) :
    List String :=
  identity.name.parts.dropLast ++ [identity.fileStem ++ "." ++ sourceExtension]

variable {identity : Identity}

theorem fileStem_of_none
    (h : identity.version = none) :
    identity.fileStem = identity.name.last := by
  rw [fileStem, h]

theorem fileStem_of_version
    {v : Version}
    (h : identity.version = some v) :
    identity.fileStem = identity.name.last ++ "-" ++ v.display := by
  rw [fileStem, h]

theorem IsValid.parts_eq
    (h : identity.IsValid) :
    identity.name.parts = identity.name.parts.dropLast ++ [identity.name.last] := by
  have hne := h.name.isPart.1
  rw [PackageName.last, List.getLastD_eq_getLast?, List.getLast?_eq_some_getLast hne,
    Option.getD_some, List.dropLast_append_getLast]

theorem IsValid.last_mem
    (h : identity.IsValid) :
    identity.name.last ∈ identity.name.parts := by
  rw [h.parts_eq]
  simp

theorem IsValid.isName_part
    (h : identity.IsValid)
    {part : String}
    (hpart : part ∈ identity.name.parts) :
    Path.IsName part := by
  have hident := PackageName.isIdentText_of_isPart (h.name.isPart.2 part hpart)
  refine Path.isName_of_isIdentText hident ?_
  rintro rfl
  exact absurd (h.name.isPart.2 "" hpart) (by decide)

/-- The version of an identity is behind the first dash of the name of its file. -/
theorem IsValid.cutStem_fileStem
    (h : identity.IsValid) :
    Discover.cutStem identity.fileStem =
      (identity.name.last, identity.version.map Version.display) := by
  have hdash : '-' ∉ identity.name.last.toList :=
    h.name.not_mem_part (by decide) _ h.last_mem
  cases hversion : identity.version with
  | none =>
      rw [fileStem_of_none hversion, Discover.cutStem, Text.cutAt?_eq_none hdash]
      rfl
  | some v =>
      have hlist : identity.fileStem.toList =
          identity.name.last.toList ++ ['-'] ++ v.display.toList := by
        rw [fileStem_of_version hversion, String.toList_append, String.toList_append]
        rfl
      rw [Discover.cutStem, hlist, Text.cutAt?_append hdash]
      dsimp only
      rw [String.ofList_toList, String.ofList_toList]
      rfl

theorem IsValid.fileStem_ne_empty
    (h : identity.IsValid) :
    identity.fileStem ≠ "" := by
  have hlast := (h.isName_part h.last_mem).ne_empty
  cases hversion : identity.version with
  | none =>
      rwa [fileStem_of_none hversion]
  | some v =>
      rw [fileStem_of_version hversion]
      simp [hlast]

theorem IsValid.slash_not_mem_fileStem
    (h : identity.IsValid) :
    '/' ∉ identity.fileStem.toList := by
  have hlast := (h.isName_part h.last_mem).slash
  cases hversion : identity.version with
  | none =>
      rwa [fileStem_of_none hversion]
  | some v =>
      have hdisplay := (h.version v hversion).not_mem_display (c := '/') (by decide) (by decide)
        (by decide)
      rw [fileStem_of_version hversion, String.toList_append, String.toList_append]
      simp only [List.mem_append, hlast, hdisplay, or_false, false_or]
      decide

theorem IsValid.isName_fileNames
    (h : identity.IsValid) :
    ∀ name ∈ identity.fileNames, Path.IsName name := by
  intro name hname
  rcases List.mem_append.mp hname with hname | hname
  · exact h.isName_part (List.mem_of_mem_dropLast hname)
  · have hending : Path.IsName ("." ++ sourceExtension) := by
      decide
    rw [List.mem_singleton.mp hname, String.append_assoc]
    exact hending.append h.slash_not_mem_fileStem

/-- The identity of a package is found again from the path of its file below a source directory. -/
theorem IsValid.identity_join
    (h : identity.IsValid)
    (root : Path) :
    Discover.identity root (root.join (Path.ofNames identity.fileNames)) = .ok identity := by
  have hne : identity.fileNames ≠ [] := List.concat_ne_nil _ _
  have hnames := h.isName_fileNames
  have hfile : (Path.ofNames identity.fileNames).fileName? =
      some (identity.fileStem ++ "." ++ sourceExtension) :=
    Path.fileName?_ofNames hnames List.getLast?_concat
  have hparts : (Path.ofNames identity.fileNames).components.dropLast.map (·.text) =
      identity.name.parts.dropLast := by
    rw [Path.components_ofNames hnames hne, ← List.map_dropLast, List.map_map, fileNames,
      List.dropLast_concat]
    exact List.map_id _
  have hname : PackageName.parse? (String.intercalate "."
      (identity.name.parts.dropLast ++ [identity.name.last])) = some identity.name := by
    rw [← h.parts_eq]
    exact h.name.parse?_display
  unfold Discover.identity
  rw [Path.relativeTo?_join root hnames hne, Option.getD_some]
  dsimp only
  rw [hfile]
  dsimp only
  rw [Path.cutExtension_append h.fileStem_ne_empty (by decide), h.cutStem_fileStem]
  dsimp only
  rw [Discover.versionOf_display h.version]
  dsimp only
  rw [hparts, hname]

end Identity

/-- Identities survive the paths of their files.  Each one is found again below every directory, and
no two are written alike.  Below directories that exist, the source files of the tree can be listed
if all of them have identities.  Discovery finds exactly these files, each once and in order, if
their identities are distinct, and else reports two that have one identity; and no resolution of
sources with distinct identities finds a package that is defined twice. -/
theorem discover_identities :
    (∀ id : Identity, id.IsValid → ∀ root : Path,
        Discover.identity root (root.join (Path.ofNames id.fileNames)) = .ok id) ∧
      (∀ id id' : Identity, id.IsValid → id'.IsValid → id.display = id'.display → id = id') ∧
        ∀ (t : FileTree) (roots : List Path), (∀ root ∈ roots, t.isDirectory root = true) →
          ((∀ root ∈ roots, ∀ names, Discover.IsSource t root names →
              ∃ id, Discover.identity root (root.join (Path.ofNames names)) = .ok id) →
            ∃ sources, Discover.Lists t roots sources) ∧
          ∀ sources, Discover.Lists t roots sources →
            (∀ found, discover t roots = .ok found ↔
              found = sources ∧ (sources.map (·.identity)).Nodup) ∧
            (¬ (sources.map (·.identity)).Nodup →
              ∃ first second, [first, second].Sublist sources ∧ first.identity = second.identity ∧
                discover t roots = .error
                  (.duplicatePackage second.identity.display first.path.text second.path.text)) ∧
            ((sources.map (·.identity)).Nodup →
              ∀ options files errors, files.map (·.identity) = sources.map (·.identity) →
                resolve options files = .error errors →
                  ∀ e ∈ errors, ∀ name, e.problem ≠ .duplicatePackage name) := by
  refine ⟨fun id hid root => hid.identity_join root,
    fun id id' hid hid' heq => hid.display_inj hid' heq, fun t roots hroots =>
      ⟨Discover.exists_lists hroots, fun sources hsources => ?_⟩⟩
  have hfinds : Discover.Finds sources (discover t roots) :=
    Discover.finds_addRoots (List.forall_mem_nil _) List.nodup_nil hroots hsources
  refine ⟨hfinds.eq_ok_iff, hfinds.reported, ?_⟩
  intro hnodup options files errors hfiles hresolve e he name hproblem
  refine (Resolve.reports_duplicatePackage_iff options files).mp ⟨e, ?_, ?_⟩ ?_
  · unfold resolve at hresolve
    dsimp only at hresolve
    split at hresolve
    · cases hresolve
    · cases hresolve
      exact he
  · rw [ResolveError.isDuplicatePackage, hproblem]
  · rwa [hfiles]

namespace Sample

/-- A directory with a package in two versions, one of them without a number, and another directory
that has one of them as well. -/
def crates : FileTree :=
  { start := []
    entries :=
      [(["proto"], .directory),
        (["proto", "notes.txt"], .file ""),
        (["proto", "foo"], .directory),
        (["proto", "foo", "bar.reproto"], .file ""),
        (["proto", "foo", "bar-1.0.0-rc.1+b.2.reproto"], .file ""),
        (["more"], .directory),
        (["more", "foo"], .directory),
        (["more", "foo", "bar.reproto"], .file "")]
    distinct := by decide }

/-- The candidate for the first release. -/
def candidate : Identity :=
  ⟨⟨["foo", "bar"]⟩, some ⟨1, 0, 0, ["rc", "1"], ["b", "2"]⟩⟩

/-- The package without a version. -/
def unreleased : Identity :=
  ⟨⟨["foo", "bar"]⟩, none⟩

/-- The source files of the first directory. -/
def protoSources : List Discovered :=
  [⟨⟨"proto/foo/bar-1.0.0-rc.1+b.2.reproto"⟩, candidate⟩,
    ⟨⟨"proto/foo/bar.reproto"⟩, unreleased⟩]

/-- The source files of the second directory. -/
def moreSources : List Discovered :=
  [⟨⟨"more/foo/bar.reproto"⟩, unreleased⟩]

theorem isValid_candidate :
    candidate.IsValid where
  name := ⟨"foo.bar", by decide⟩
  version := by
    rintro v ⟨⟩
    exact ⟨"1.0.0-rc.1+b.2", by decide⟩

theorem isDirectory_crates :
    ∀ root ∈ [Path.mk "proto/", Path.mk "more"], crates.isDirectory root = true := by
  decide

theorem listsBelow_proto :
    Discover.ListsBelow crates ⟨"proto/"⟩ protoSources := by
  refine ⟨[["foo", "bar-1.0.0-rc.1+b.2.reproto"], ["foo", "bar.reproto"]], fun names => ?_,
    by decide, by decide +kernel, by decide +kernel⟩
  have hplace : crates.placeOf ⟨"proto/"⟩ = ["proto"] := by
    decide
  constructor
  · intro hnames
    rcases List.mem_pair.mp hnames with rfl | rfl
    · exact ⟨⟨"", by decide⟩, ["foo"], "bar-1.0.0-rc.1+b.2", by decide, by decide⟩
    · exact ⟨⟨"", by decide⟩, ["foo"], "bar", by decide, by decide⟩
  · rintro ⟨⟨text, hfile⟩, hextension⟩
    rw [hplace, FileTree.node?_eq_some_iff (by simp)] at hfile
    have hnames : (names = ["notes.txt"] ∨ names = ["foo", "bar.reproto"] ∨
        names = ["foo", "bar-1.0.0-rc.1+b.2.reproto"]) ∧ text = "" := by
      simpa [crates, ← or_and_right] using hfile
    rcases hnames.1 with rfl | rfl | rfl
    · exact absurd ((Discover.hasExtension_iff _).mpr hextension) (by decide)
    · exact List.mem_cons_of_mem _ List.mem_cons_self
    · exact List.mem_cons_self

theorem listsBelow_more :
    Discover.ListsBelow crates ⟨"more"⟩ moreSources := by
  refine ⟨[["foo", "bar.reproto"]], fun names => ?_,
    by decide, by decide +kernel, by decide +kernel⟩
  have hplace : crates.placeOf ⟨"more"⟩ = ["more"] := by
    decide
  constructor
  · intro hnames
    obtain rfl := List.mem_singleton.mp hnames
    exact ⟨⟨"", by decide⟩, ["foo"], "bar", by decide, by decide⟩
  · rintro ⟨⟨text, hfile⟩, -⟩
    rw [hplace, FileTree.node?_eq_some_iff (by simp)] at hfile
    have hnames : names = ["foo", "bar.reproto"] ∧ text = "" := by
      simpa [crates] using hfile
    exact List.mem_singleton.mpr hnames.1

end Sample

/-- The two versions are found in the first directory.  With the second one, the package that is in
both is reported. -/
theorem discover_identities_crates :
    Discover.identity ⟨"proto/"⟩ ⟨"proto/foo/bar-1.0.0-rc.1+b.2.reproto"⟩ = .ok Sample.candidate ∧
      discover Sample.crates [⟨"proto/"⟩] = .ok Sample.protoSources ∧
      Sample.protoSources.map (·.identity) = [Sample.candidate, Sample.unreleased] ∧
      discover Sample.crates [⟨"proto/"⟩, ⟨"more"⟩] =
        .error (.duplicatePackage "foo.bar" "proto/foo/bar.reproto" "more/foo/bar.reproto") := by
  have hpath : (Path.mk "proto/").join (Path.ofNames Sample.candidate.fileNames) =
      ⟨"proto/foo/bar-1.0.0-rc.1+b.2.reproto"⟩ := by
    decide +kernel
  obtain ⟨hidentity, -, hdiscover⟩ := discover_identities
  have hroots := Sample.isDirectory_crates
  have hproto := (hdiscover Sample.crates [⟨"proto/"⟩] (by decide)).2 Sample.protoSources
    (List.append_nil Sample.protoSources ▸ .cons Sample.listsBelow_proto .nil)
  have hboth := (hdiscover Sample.crates _ hroots).2 (Sample.protoSources ++ Sample.moreSources)
    (.cons Sample.listsBelow_proto (.cons Sample.listsBelow_more .nil))
  obtain ⟨first, second, hsublist, heq, herror⟩ := hboth.2.1 (by decide)
  refine ⟨hpath ▸ hidentity _ Sample.isValid_candidate ⟨"proto/"⟩,
    (hproto.1 _).mpr ⟨rfl, by decide⟩, rfl, ?_⟩
  have hpairs : (Sample.protoSources ++ Sample.moreSources).Pairwise fun f g =>
      f.identity = g.identity →
        LoadError.duplicatePackage g.identity.display f.path.text g.path.text =
          .duplicatePackage "foo.bar" "proto/foo/bar.reproto" "more/foo/bar.reproto" := by
    decide
  rw [herror, List.pairwise_iff_forall_sublist.mp hpairs hsublist heq]

end Schemata
