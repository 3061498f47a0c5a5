import Schemata.Project.Discover
import Schemata.Proofs.Except
import Schemata.Proofs.Package.Notation
import Schemata.Proofs.Project.FileTree

/-!
# Discovered identities

The source files below a directory are the files of the tree there whose names have
the extension of sources.  Each is listed once, in the order of names.

The identity of a source file is read from its path, so its name and its version
can be read from texts.  Identities that can be read are written alike only if they
are equal.  So the source files below directories that exist are all found, if no two
of them have one identity, and else two that have one are reported.

**Results.** `listsBelow_iff`, `exists_lists`, `finds_addRoots`, `isValid_of_discover`.
-/

namespace Schemata
namespace Discover

theorem isValid_of_identity
    {root path : Path}
    {id : Identity}
    (h : identity root path = .ok id) :
    id.IsValid := by
  unfold identity at h
  dsimp only at h
  split at h
  · cases h
  · rename_i file hfile
    generalize cutStem (Path.cutExtension file).1 = stem at h
    obtain ⟨last, text⟩ := stem
    dsimp only at h
    split at h
    · cases h
    · rename_i version hversion
      split at h
      · rename_i name hname
        cases h
        refine ⟨⟨_, hname⟩, fun v hv => ?_⟩
        obtain rfl : version = some v := hv
        cases text with
        | none =>
            cases hversion
        | some text =>
            rw [versionOf] at hversion
            split at hversion
            · rename_i v' hparse
              cases hversion
              exact ⟨text, hparse⟩
            · cases hversion
      · cases h

/-- A version is read from its written form. -/
theorem versionOf_display
    {version : Option Version}
    (h : ∀ v ∈ version, v.IsValid)
    (path : Path) :
    versionOf path (version.map Version.display) = .ok version := by
  cases version with
  | none =>
      rfl
  | some v =>
      rw [Option.map_some, versionOf, (h v rfl).parse_display]

section Step

attribute [local irreducible] identity

-- What the identity is need not be looked at to see which file is next.
theorem addFiles_cons
    (root path : Path)
    (found : List Discovered)
    (rest : List Path) :
    addFiles root found (path :: rest) =
      match identity root path with
      | .error e => .error e
      | .ok id =>
          match found.find? (·.identity.display == id.display) with
          | some first => .error (.duplicatePackage id.display first.path.text path.text)
          | none => addFiles root (found ++ [⟨path, id⟩]) rest := by
  rfl

end Step

theorem isValid_of_addFiles
    {root : Path}
    {found found' : List Discovered}
    {paths : List Path}
    (hfound : ∀ f ∈ found, f.identity.IsValid)
    (h : addFiles root found paths = .ok found') :
    ∀ f ∈ found', f.identity.IsValid := by
  induction paths generalizing found with
  | nil =>
      cases h
      exact hfound
  | cons path rest ih =>
      rw [addFiles_cons] at h
      split at h
      · cases h
      · rename_i id hid
        split at h
        · cases h
        · refine ih (fun f hf => ?_) h
          rcases List.mem_append.mp hf with hf | hf
          · exact hfound f hf
          · rw [List.mem_singleton.mp hf]
            exact isValid_of_identity hid

theorem isValid_of_addRoots
    {t : FileTree}
    {found found' : List Discovered}
    {roots : List Path}
    (hfound : ∀ f ∈ found, f.identity.IsValid)
    (h : addRoots t found roots = .ok found') :
    ∀ f ∈ found', f.identity.IsValid := by
  induction roots generalizing found with
  | nil =>
      cases h
      exact hfound
  | cons root rest ih =>
      rw [addRoots] at h
      split at h
      · split at h
        · cases h
        · rename_i more hmore
          exact ih (isValid_of_addFiles hfound hmore) h
      · cases h

section Listing

/-- The names lead from a directory to a source file below it. -/
structure IsSource
    (t : FileTree)
    (root : Path)
    (names : List String) : Prop where
  file : ∃ text, t.node? (t.placeOf root ++ names) = some (.file text)
  extension : ∃ way stem, stem ≠ "" ∧ names = way ++ [stem ++ "." ++ sourceExtension]

/-- All source files below a directory with their identities, each once and in the order of
names. -/
def ListsBelow
    (t : FileTree)
    (root : Path)
    (sources : List Discovered) : Prop :=
  ∃ below : List (List String),
    (∀ names, names ∈ below ↔ IsSource t root names) ∧
      below.Pairwise (· < ·) ∧
      sources.map (·.path) = below.map (fun names => root.join (Path.ofNames names)) ∧
      ∀ f ∈ sources, identity root f.path = .ok f.identity

/-- All source files below some directories, directory by directory. -/
inductive Lists
    (t : FileTree) :
    List Path → List Discovered → Prop
  | nil :
      Lists t [] []
  | cons
      {root : Path}
      {roots : List Path}
      {first rest : List Discovered}
      (hfirst : ListsBelow t root first)
      (hrest : Lists t roots rest) :
      Lists t (root :: roots) (first ++ rest)

variable {t : FileTree}
variable {root : Path}

theorem hasExtension_iff
    (names : List String) :
    (Path.cutExtension (names.getLastD "")).2 = some sourceExtension ↔
      ∃ way stem, stem ≠ "" ∧ names = way ++ [stem ++ "." ++ sourceExtension] := by
  rw [Path.cutExtension_eq_some_iff (by decide)]
  rcases List.eq_nil_or_concat' names with rfl | ⟨init, last, rfl⟩
  · simp
  · simp

/-- The files that are walked through are the source files, each once and in the order of names. -/
theorem exists_below
    (h : t.isDirectory root = true) :
    ∃ below : List (List String),
      (∀ names, names ∈ below ↔ IsSource t root names) ∧
        below.Pairwise (· < ·) ∧
        sourcesBelow t root = below.map fun names => root.join (Path.ofNames names) := by
  refine ⟨_, fun names => ?_, (t.pairwise_filesBelow root).filter _, rfl⟩
  rw [List.mem_filter, FileTree.mem_filesBelow_iff h, beq_iff_eq, hasExtension_iff]
  exact ⟨fun ⟨hfile, hextension⟩ => ⟨hfile, hextension⟩,
    fun ⟨hfile, hextension⟩ => ⟨hfile, hextension⟩⟩

theorem listsBelow_iff
    (h : t.isDirectory root = true)
    {sources : List Discovered} :
    ListsBelow t root sources ↔
      sourcesBelow t root = sources.map (·.path) ∧
        ∀ f ∈ sources, identity root f.path = .ok f.identity := by
  obtain ⟨below, hmem, hsorted, hbelow⟩ := exists_below h
  constructor
  · rintro ⟨below', hmem', hsorted', hpaths, hids⟩
    obtain rfl : below = below' :=
      hsorted.eq_of_mem_iff hsorted' fun names => (hmem names).trans (hmem' names).symm
    exact ⟨hbelow.trans hpaths.symm, hids⟩
  · rintro ⟨hpaths, hids⟩
    exact ⟨below, hmem, hsorted, hpaths.symm.trans hbelow, hids⟩

theorem exists_sources
    {paths : List Path}
    (h : ∀ path ∈ paths, ∃ id, identity root path = .ok id) :
    ∃ sources : List Discovered, paths = sources.map (·.path) ∧
      ∀ f ∈ sources, identity root f.path = .ok f.identity := by
  induction paths with
  | nil =>
      exact ⟨[], rfl, List.forall_mem_nil _⟩
  | cons path paths ih =>
      obtain ⟨⟨id, hid⟩, hrest⟩ := List.forall_mem_cons.mp h
      obtain ⟨sources, hpaths, hids⟩ := ih hrest
      exact ⟨⟨path, id⟩ :: sources, congrArg (path :: ·) hpaths,
        List.forall_mem_cons.mpr ⟨hid, hids⟩⟩

/-- Where all source files have an identity, they can be listed. -/
theorem exists_lists
    {roots : List Path}
    (hroots : ∀ root ∈ roots, t.isDirectory root = true)
    (hids : ∀ root ∈ roots, ∀ names, IsSource t root names →
      ∃ id, identity root (root.join (Path.ofNames names)) = .ok id) :
    ∃ sources, Lists t roots sources := by
  induction roots with
  | nil =>
      exact ⟨[], .nil⟩
  | cons root roots ih =>
      obtain ⟨hroot, hroots⟩ := List.forall_mem_cons.mp hroots
      obtain ⟨hid, hids⟩ := List.forall_mem_cons.mp hids
      obtain ⟨below, hmem, -, hbelow⟩ := exists_below hroot
      have hpaths : ∀ path ∈ sourcesBelow t root, ∃ id, identity root path = .ok id := by
        rw [hbelow, List.forall_mem_map]
        exact fun names hnames => hid names ((hmem names).mp hnames)
      obtain ⟨first, hfirst⟩ := exists_sources hpaths
      obtain ⟨rest, hrest⟩ := ih hroots hids
      exact ⟨first ++ rest, .cons ((listsBelow_iff hroot).mpr hfirst) hrest⟩

end Listing

/-- All sources are found if their identities are distinct; else two with one identity are
reported. -/
structure Finds
    (sources : List Discovered)
    (outcome : Except LoadError (List Discovered)) : Prop where
  found : (sources.map (·.identity)).Nodup → outcome = .ok sources
  reported : ¬ (sources.map (·.identity)).Nodup →
    ∃ first second, [first, second].Sublist sources ∧ first.identity = second.identity ∧
      outcome = .error
        (.duplicatePackage second.identity.display first.path.text second.path.text)

theorem Finds.eq_ok_iff
    {sources : List Discovered}
    {outcome : Except LoadError (List Discovered)}
    (h : Finds sources outcome)
    (found : List Discovered) :
    outcome = .ok found ↔ found = sources ∧ (sources.map (·.identity)).Nodup := by
  by_cases hnodup : (sources.map (·.identity)).Nodup
  · rw [h.found hnodup, and_iff_left hnodup, Except.ok.injEq, eq_comm]
  · obtain ⟨first, second, -, -, herror⟩ := h.reported hnodup
    rw [herror]
    exact iff_of_false (fun heq => (by cases heq)) fun hfound => hnodup hfound.2

section Adding

variable {found : List Discovered}

theorem finds_of_nodup
    (hdistinct : (found.map (·.identity)).Nodup) :
    Finds (found ++ []) (.ok found) := by
  rw [List.append_nil]
  exact ⟨fun _ => rfl, fun h => absurd hdistinct h⟩

attribute [local irreducible] identity

/-- An identity is written like one that was found exactly when it was found. -/
theorem display_eq_iff
    (hvalid : ∀ f ∈ found, f.identity.IsValid)
    {id : Identity}
    (hid : id.IsValid)
    {f : Discovered}
    (hf : f ∈ found) :
    (f.identity.display == id.display) = true ↔ f.identity = id := by
  rw [beq_iff_eq]
  exact ⟨(hvalid f hf).display_inj hid, congrArg Identity.display⟩

theorem finds_addFiles
    {root : Path}
    {more : List Discovered}
    (hvalid : ∀ f ∈ found, f.identity.IsValid)
    (hdistinct : (found.map (·.identity)).Nodup)
    (hids : ∀ f ∈ more, identity root f.path = .ok f.identity) :
    Finds (found ++ more) (addFiles root found (more.map (·.path))) := by
  induction more generalizing found with
  | nil =>
      exact finds_of_nodup hdistinct
  | cons f more ih =>
      obtain ⟨hid, hids⟩ := List.forall_mem_cons.mp hids
      have hidValid := isValid_of_identity hid
      rw [List.map_cons, addFiles_cons, hid]
      dsimp only
      cases hfind : found.find? (·.identity.display == f.identity.display) with
      | some first =>
          have hmem := List.mem_of_find?_eq_some hfind
          have hdisplay := List.find?_some hfind
          have heq := (display_eq_iff hvalid hidValid hmem).mp hdisplay
          have hsublist : [first, f].Sublist (found ++ f :: more) :=
            (List.singleton_sublist.mpr hmem).append (List.singleton_sublist.mpr List.mem_cons_self)
          refine ⟨fun hnodup => ?_, fun _ => ⟨first, f, hsublist, heq, rfl⟩⟩
          exact absurd heq (by simpa using hnodup.sublist (hsublist.map (·.identity)))
      | none =>
          have hnew : f.identity ∉ found.map (·.identity) := by
            intro hmem
            obtain ⟨g, hg, heq⟩ := List.mem_map.mp hmem
            exact List.find?_eq_none.mp hfind g hg ((display_eq_iff hvalid hidValid hg).mpr heq)
          have hvalid' : ∀ g ∈ found ++ [f], g.identity.IsValid :=
            List.forall_mem_append.mpr ⟨hvalid, List.forall_mem_singleton.mpr hidValid⟩
          have hdistinct' : ((found ++ [f]).map (·.identity)).Nodup := by
            rw [List.map_append, List.map_singleton, ← List.concat_eq_append]
            exact hdistinct.concat hnew
          have hfinds := ih hvalid' hdistinct' hids
          rwa [List.append_assoc] at hfinds

/-- Source files of several directories that all exist. -/
theorem finds_addRoots
    {t : FileTree}
    {roots : List Path}
    {sources : List Discovered}
    (hvalid : ∀ f ∈ found, f.identity.IsValid)
    (hdistinct : (found.map (·.identity)).Nodup)
    (hroots : ∀ root ∈ roots, t.isDirectory root = true)
    (hsources : Lists t roots sources) :
    Finds (found ++ sources) (addRoots t found roots) := by
  induction hsources generalizing found with
  | nil =>
      exact finds_of_nodup hdistinct
  | @cons root roots first rest hfirst hrest ih =>
      obtain ⟨hroot, hroots⟩ := List.forall_mem_cons.mp hroots
      obtain ⟨hpaths, hids⟩ := (listsBelow_iff hroot).mp hfirst
      have hnow := finds_addFiles hvalid hdistinct hids
      rw [addRoots, if_pos hroot, hpaths, ← List.append_assoc]
      by_cases hnodup : ((found ++ first).map (·.identity)).Nodup
      · have hfound := hnow.found hnodup
        rw [hfound]
        exact ih (isValid_of_addFiles hvalid hfound) hnodup hroots
      · obtain ⟨one, other, hsublist, heq, herror⟩ := hnow.reported hnodup
        have hmore := List.sublist_append_left (found ++ first) rest
        rw [herror]
        exact ⟨fun hall => absurd (hall.sublist (hmore.map (·.identity))) hnodup,
          fun _ => ⟨one, other, hsublist.trans hmore, heq, rfl⟩⟩

end Adding

end Discover

/-- Discovered identities can be read from texts. -/
theorem isValid_of_discover
    {t : FileTree}
    {roots : List Path}
    {found : List Discovered}
    (h : discover t roots = .ok found) :
    ∀ f ∈ found, f.identity.IsValid :=
  Discover.isValid_of_addRoots (fun f hf => (by cases hf)) h

end Schemata
