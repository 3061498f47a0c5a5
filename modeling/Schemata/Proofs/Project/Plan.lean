import Schemata.Project.Build
import Schemata.Proofs.Except
import Schemata.Proofs.Project.Discover

/-!
# Why nothing is built

A build goes through several stages before anything is written: it chooses
backends, finds and reads the sources, parses and resolves them, and chooses
packages.  Each stage deals with a list, and stops at the first thing in it that is
wrong, so it stops exactly when something in the list is wrong.

**Results.** `not_stops_of_passes`, `passes_or_stops`.
-/

namespace Schemata

namespace Target

theorem findAll_eq_mapM
    (targets : List String) :
    findAll targets = targets.mapM fun name =>
      match find? name with
      | none => .error (.unknownTarget name names)
      | some b => .ok b := by
  induction targets with
  | nil =>
      rfl
  | cons name rest ih =>
      rw [findAll, List.mapM_cons, ← ih]
      cases find? name with
      | none =>
          rfl
      | some b =>
          cases findAll rest with
          | error e => rfl
          | ok bs => rfl

section Select

variable {targets : List String}
variable {backends : List Backend}

theorem find?_of_select
    (h : select targets = .ok backends) :
    ∀ name ∈ targets, find? name ≠ none := by
  intro name hname
  rw [select, if_neg (by simpa using List.ne_nil_of_mem hname), findAll_eq_mapM] at h
  obtain ⟨b, -, hb⟩ := exists_ok_of_mapM h hname
  intro hnone
  rw [hnone] at hb
  cases hb

theorem mem_all_of_select
    (h : select targets = .ok backends) :
    ∀ b ∈ backends, b ∈ all := by
  intro b hb
  unfold select at h
  split at h
  · cases h
    exact hb
  · rw [findAll_eq_mapM] at h
    obtain ⟨name, -, hname⟩ := exists_of_mem_mapM h hb
    split at hname
    · cases hname
    · rename_i found hfound
      cases hname
      exact List.mem_of_find?_eq_some hfound

theorem exists_of_select_error
    {e : LoadError}
    (h : select targets = .error e) :
    ∃ name ∈ targets, find? name = none := by
  unfold select at h
  split at h
  · cases h
  · rw [findAll_eq_mapM] at h
    obtain ⟨name, hname, hfailed⟩ := exists_error_of_mapM h
    refine ⟨name, hname, ?_⟩
    split at hfailed
    · rename_i hnone
      exact hnone
    · cases hfailed

end Select

end Target

namespace Schema

variable {s : Schema}

theorem selectAll_eq_mapM
    (selectors : List String) :
    s.selectAll selectors = (selectors.mapM s.selectPackages).map List.flatten := by
  induction selectors with
  | nil =>
      rfl
  | cons selector rest ih =>
      rw [selectAll, List.mapM_cons, ih]
      cases s.selectPackages selector with
      | error e =>
          rfl
      | ok found =>
          rw [ok_bind]
          cases rest.mapM s.selectPackages with
          | error e => rfl
          | ok others => rfl

/-- A selector chooses at least one package. -/
theorem selectPackages_eq_ok
    {selector : String}
    {found : List Nat}
    (h : s.selectPackages selector = .ok found) :
    found ≠ [] ∧ ∀ i ∈ found, i < s.packages.length := by
  unfold selectPackages at h
  split at h
  · cases h
  · dsimp only at h
    split at h
    · cases h
    · rename_i hempty
      cases h
      refine ⟨by simpa using hempty, fun i hi => ?_⟩
      exact List.mem_range.mp (List.mem_filter.mp hi).1

/-- The selector chooses the package. -/
def Selects
    (s : Schema)
    (selector : String)
    (package : Nat) : Prop :=
  ∃ found, s.selectPackages selector = .ok found ∧ package ∈ found

section SelectAll

variable {selectors : List String}
variable {packages : List Nat}
variable (h : s.selectAll selectors = .ok packages)

include h

theorem selectPackages_of_selectAll :
    ∀ selector ∈ selectors, ∃ found, s.selectPackages selector = .ok found := by
  intro selector hselector
  rw [selectAll_eq_mapM] at h
  obtain ⟨found, hfound, -⟩ := map_eq_ok.mp h
  obtain ⟨packages, -, hpackages⟩ := exists_ok_of_mapM hfound hselector
  exact ⟨packages, hpackages⟩

/-- Several selectors choose what one of them chooses. -/
theorem mem_selectAll_iff
    (package : Nat) :
    package ∈ packages ↔ ∃ selector ∈ selectors, s.Selects selector package := by
  rw [selectAll_eq_mapM] at h
  obtain ⟨chosen, hchosen, rfl⟩ := map_eq_ok.mp h
  rw [List.mem_flatten]
  constructor
  · rintro ⟨found, hfound, hmem⟩
    obtain ⟨selector, hselector, heq⟩ := exists_of_mem_mapM hchosen hfound
    exact ⟨selector, hselector, found, heq, hmem⟩
  · rintro ⟨selector, hselector, found, hfound, hmem⟩
    obtain ⟨found', hfound', heq⟩ := exists_ok_of_mapM hchosen hselector
    rw [hfound] at heq
    cases heq
    exact ⟨found, hfound', hmem⟩

/-- Some selectors choose some packages. -/
theorem selectAll_eq_nil_iff :
    packages = [] ↔ selectors = [] := by
  constructor
  · rintro rfl
    refine List.eq_nil_iff_forall_not_mem.mpr fun selector hselector => ?_
    obtain ⟨found, hfound⟩ := selectPackages_of_selectAll h selector hselector
    obtain ⟨i, hi⟩ := List.exists_mem_of_ne_nil found (selectPackages_eq_ok hfound).1
    exact List.not_mem_nil ((mem_selectAll_iff h i).mpr ⟨selector, hselector, found, hfound, hi⟩)
  · rintro rfl
    cases h
    rfl

end SelectAll

end Schema

namespace Compile

section Parsing

variable {options : ResolveOptions}
variable {inputs : List Input}

theorem parseAll_errors_eq_nil_iff :
    (parseAll inputs).2 = [] ↔ ∀ input ∈ inputs, (Tree.parse input.file input.source).2 = [] := by
  simp [parseAll, List.flatMap_eq_nil_iff]

theorem mem_parseAll_iff
    {f : SourceFile} :
    f ∈ (parseAll inputs).1 ↔ ∃ input ∈ inputs,
      f = ⟨input.file, input.identity, (Tree.parse input.file input.source).1⟩ := by
  simp [parseAll, eq_comm]

/-- Sources with errors give no schema. -/
theorem schema_of_errors
    (h : (parseAll inputs).2 ≠ []) :
    (compile options inputs).schema = none := by
  unfold compile
  split
  · rename_i files heq
    rw [heq] at h
    exact absurd rfl h
  · rfl

theorem compile_of_parsed
    (h : (parseAll inputs).2 = []) :
    compile options inputs =
      match resolve options (parseAll inputs).1 with
      | .ok resolved => ⟨resolved.warnings.map (·.toDiagnostic), some resolved.schema⟩
      | .error errors => ⟨errors.map (·.toDiagnostic), none⟩ := by
  unfold compile
  generalize parseAll inputs = parsed at h ⊢
  obtain ⟨files, errors⟩ := parsed
  obtain rfl : errors = [] := h
  rfl

end Parsing

end Compile

namespace Build

section Reading

variable {t : FileTree}

theorem readSources_eq_mapM
    (index : Nat)
    (found : List Discovered) :
    readSources t index found = (found.zipIdx index).mapM fun f =>
      match t.read f.1.path with
      | .error _ => .error (.read f.1.path.text)
      | .ok text => .ok ⟨f.2, f.1.identity, text⟩ := by
  induction found generalizing index with
  | nil =>
      rfl
  | cons f rest ih =>
      rw [readSources, List.zipIdx_cons, List.mapM_cons, ih]
      cases t.read f.path with
      | error e =>
          rfl
      | ok text =>
          rw [ok_bind]
          dsimp only
          split
          · rename_i e he
            rw [he]
            rfl
          · rename_i inputs hinputs
            rw [hinputs]
            rfl

variable {roots : List Path}

/-- What is loaded was found, and can be read. -/
theorem load_eq_ok
    {sources : Sources}
    (h : load t roots = .ok sources) :
    ∃ found, discover t roots = .ok found ∧ (∀ f ∈ found, ∃ text, t.read f.path = .ok text) ∧
      ∀ input ∈ sources.inputs, ∃ f ∈ found, input.identity = f.identity := by
  unfold load at h
  split at h
  · cases h
  · rename_i found hfound
    refine ⟨found, hfound, ?_⟩
    split at h
    · cases h
    · rename_i inputs hinputs
      cases h
      rw [readSources_eq_mapM] at hinputs
      refine ⟨fun f hf => ?_, fun input hinput => ?_⟩
      · obtain ⟨index, hindex⟩ := List.mem_iff_getElem?.mp hf
        obtain ⟨input, -, heq⟩ := exists_ok_of_mapM hinputs
          (List.mk_mem_zipIdx_iff_getElem?.mpr hindex)
        cases hread : t.read f.path with
        | error e =>
            rw [hread] at heq
            cases heq
        | ok text =>
            exact ⟨text, rfl⟩
      · obtain ⟨⟨f, index⟩, hf, heq⟩ := exists_of_mem_mapM hinputs hinput
        refine ⟨f, List.mem_of_getElem? (List.mk_mem_zipIdx_iff_getElem?.mp hf), ?_⟩
        split at heq
        · cases heq
        · cases heq
          rfl

end Reading

/-- Something is wrong with the targets, the sources or the packages that are asked for. -/
inductive Stops
    (t : FileTree)
    (settings : Settings) :
    Prop
  | target
      {name : String}
      (hname : name ∈ settings.targets)
      (hunknown : Target.find? name = none)
  | discovery
      {e : LoadError}
      (hdiscover : discover t settings.paths = .error e)
  | reading
      {found : List Discovered}
      (hdiscover : discover t settings.paths = .ok found)
      {f : Discovered}
      (hf : f ∈ found)
      {e : FileError}
      (hread : t.read f.path = .error e)
  | parsing
      {sources : Sources}
      (hload : load t settings.paths = .ok sources)
      {input : Input}
      (hinput : input ∈ sources.inputs)
      (herrors : (Tree.parse input.file input.source).2 ≠ [])
  | resolution
      {sources : Sources}
      (hload : load t settings.paths = .ok sources)
      {errors : List ResolveError}
      (hresolve : resolve settings.resolve (Compile.parseAll sources.inputs).1 = .error errors)
  | selection
      {sources : Sources}
      (hload : load t settings.paths = .ok sources)
      {r : Resolved}
      (hresolve : resolve settings.resolve (Compile.parseAll sources.inputs).1 = .ok r)
      {selector : String}
      (hselector : selector ∈ settings.packages)
      {e : LoadError}
      (hunknown : r.schema.selectPackages selector = .error e)

/-- All stages of a build before the writing succeed. -/
structure Passes
    (t : FileTree)
    (settings : Settings)
    (backends : List Backend)
    (sources : Sources)
    (r : Resolved)
    (packages : List Nat) : Prop where
  targets : Target.select settings.targets = .ok backends
  load : load t settings.paths = .ok sources
  parsed : ∀ input ∈ sources.inputs, (Tree.parse input.file input.source).2 = []
  resolved : resolve settings.resolve (Compile.parseAll sources.inputs).1 = .ok r
  packages : r.schema.selectAll settings.packages = .ok packages

section Stages

variable {t : FileTree}
variable {settings : Settings}
variable {backends : List Backend}
variable {sources : Sources}
variable {r : Resolved}
variable {packages : List Nat}

/-- What passes is determined by the tree and the settings. -/
theorem Passes.unique
    {backends' : List Backend}
    {sources' : Sources}
    {r' : Resolved}
    {packages' : List Nat}
    (h : Passes t settings backends sources r packages)
    (h' : Passes t settings backends' sources' r' packages') :
    backends = backends' ∧ r = r' ∧ packages = packages' := by
  obtain rfl := Except.ok.inj (h.targets.symm.trans h'.targets)
  obtain rfl := Except.ok.inj (h.load.symm.trans h'.load)
  obtain rfl := Except.ok.inj (h.resolved.symm.trans h'.resolved)
  exact ⟨rfl, rfl, Except.ok.inj (h.packages.symm.trans h'.packages)⟩

/-- What passes is in order. -/
theorem not_stops_of_passes
    (h : Passes t settings backends sources r packages) :
    ¬ Stops t settings := by
  obtain ⟨found, hfound, hread, -⟩ := load_eq_ok h.load
  rintro (⟨hname, hunknown⟩ | hdiscover | ⟨hdiscover, hf, hfailed⟩ | ⟨hload, hinput, herrors⟩ |
    ⟨hload, hresolve⟩ | ⟨hload, hresolve, hselector, hunknown⟩)
  · exact Target.find?_of_select h.targets _ hname hunknown
  · rw [hfound] at hdiscover
    cases hdiscover
  · rw [hfound] at hdiscover
    cases hdiscover
    obtain ⟨text, htext⟩ := hread _ hf
    rw [htext] at hfailed
    cases hfailed
  · rw [h.load] at hload
    cases hload
    exact herrors (h.parsed _ hinput)
  · rw [h.load] at hload
    cases hload
    rw [h.resolved] at hresolve
    cases hresolve
  · rw [h.load] at hload
    cases hload
    rw [h.resolved] at hresolve
    cases hresolve
    obtain ⟨found, hselected⟩ := Schema.selectPackages_of_selectAll h.packages _ hselector
    rw [hselected] at hunknown
    cases hunknown

theorem plan_of_load
    (htargets : Target.select settings.targets = .ok backends)
    (hload : load t settings.paths = .ok sources) :
    plan t settings =
      match (compile settings.resolve sources.inputs).schema with
      | none => .ok ⟨(compile settings.resolve sources.inputs).diagnostics, []⟩
      | some s =>
          (s.selectAll settings.packages).map fun packages =>
            { diagnostics := (compile settings.resolve sources.inputs).diagnostics ++
                (emit s backends ⟨settings.placement, packages⟩).errors.map (·.toDiagnostic)
              files := (emit s backends ⟨settings.placement, packages⟩).files } := by
  rw [plan, htargets]
  dsimp only
  rw [check, hload]
  dsimp only
  cases (compile settings.resolve sources.inputs).schema with
  | none =>
      rfl
  | some s =>
      dsimp only
      cases s.selectAll settings.packages with
      | error e => rfl
      | ok packages => rfl

/-- What passes is written as it is emitted. -/
theorem plan_of_passes
    (h : Passes t settings backends sources r packages) :
    ∃ diagnostics, plan t settings =
      .ok ⟨diagnostics, (emit r.schema backends ⟨settings.placement, packages⟩).files⟩ := by
  have hparsed := Compile.parseAll_errors_eq_nil_iff.mpr h.parsed
  rw [plan_of_load h.targets h.load, Compile.compile_of_parsed hparsed, h.resolved]
  dsimp only
  rw [h.packages]
  exact ⟨_, rfl⟩

/-- Nothing is to be written. -/
def IsQuiet
    (t : FileTree)
    (settings : Settings) : Prop :=
  (∃ e, plan t settings = .error e) ∨ ∃ diagnostics, plan t settings = .ok ⟨diagnostics, []⟩

theorem stops_of_load_error
    {e : LoadError}
    (h : load t settings.paths = .error e) :
    Stops t settings := by
  unfold load at h
  split at h
  · rename_i hdiscover
    exact .discovery hdiscover
  · rename_i found hfound
    split at h
    · rename_i hread
      rw [readSources_eq_mapM] at hread
      obtain ⟨⟨f, index⟩, hf, hfailed⟩ := exists_error_of_mapM hread
      split at hfailed
      · rename_i e' he'
        exact .reading hfound (List.mem_of_getElem? (List.mk_mem_zipIdx_iff_getElem?.mp hf)) he'
      · cases hfailed
    · cases h

/-- Loaded sources that do not compile, or selectors that are not all known, stop the build. -/
theorem passes_or_stops_of_load
    (htargets : Target.select settings.targets = .ok backends)
    (hload : load t settings.paths = .ok sources) :
    (∃ r packages, Passes t settings backends sources r packages) ∨
      Stops t settings ∧ IsQuiet t settings := by
  have hplan := plan_of_load htargets hload
  by_cases hparsed : (Compile.parseAll sources.inputs).2 = []
  · rw [Compile.compile_of_parsed hparsed] at hplan
    have hinputs := Compile.parseAll_errors_eq_nil_iff.mp hparsed
    cases hresolve : resolve settings.resolve (Compile.parseAll sources.inputs).1 with
    | error errors =>
        rw [hresolve] at hplan
        exact .inr ⟨.resolution hload hresolve, .inr ⟨_, hplan⟩⟩
    | ok r =>
        rw [hresolve] at hplan
        dsimp only at hplan
        cases hselect : r.schema.selectAll settings.packages with
        | error e =>
            rw [hselect] at hplan
            rw [Schema.selectAll_eq_mapM] at hselect
            cases hselected : settings.packages.mapM r.schema.selectPackages with
            | error e' =>
                obtain ⟨selector, hselector, hunknown⟩ := exists_error_of_mapM hselected
                exact .inr ⟨.selection hload hresolve hselector hunknown, .inl ⟨e, hplan⟩⟩
            | ok chosen =>
                rw [hselected] at hselect
                cases hselect
        | ok packages =>
            exact .inl ⟨r, packages, htargets, hload, hinputs, hresolve, hselect⟩
  · rw [Compile.schema_of_errors hparsed] at hplan
    rw [Compile.parseAll_errors_eq_nil_iff] at hparsed
    push Not at hparsed
    obtain ⟨input, hinput, herrors⟩ := hparsed
    exact .inr ⟨.parsing hload hinput herrors, .inr ⟨_, hplan⟩⟩

/-- What does not pass stops, and then nothing is to be written. -/
theorem passes_or_stops
    (t : FileTree)
    (settings : Settings) :
    (∃ backends sources r packages, Passes t settings backends sources r packages) ∨
      Stops t settings ∧ IsQuiet t settings := by
  cases htargets : Target.select settings.targets with
  | error e =>
      obtain ⟨name, hname, hunknown⟩ := Target.exists_of_select_error htargets
      refine .inr ⟨.target hname hunknown, .inl ⟨e, ?_⟩⟩
      rw [plan, htargets]
  | ok backends =>
      cases hload : load t settings.paths with
      | error e =>
          refine .inr ⟨stops_of_load_error hload, .inl ⟨e, ?_⟩⟩
          rw [plan, htargets]
          dsimp only
          rw [check, hload]
      | ok sources =>
          rcases passes_or_stops_of_load htargets hload with hpasses | hstops
          · exact .inl ⟨backends, sources, hpasses⟩
          · exact .inr hstops

/-- The schema of what passes can be followed, and its namespaces fit. -/
theorem linked_of_passes
    (h : Passes t settings backends sources r packages) :
    r.schema.Linked ∧ r.schema.NamespacesFit := by
  obtain ⟨found, hfound, -, hinputs⟩ := load_eq_ok h.load
  refine ⟨linked_of_resolvedFrom (Resolve.resolvedFrom_of_resolve h.resolved),
    Resolve.namespacesFit_of_resolve h.resolved fun f hf => ?_⟩
  obtain ⟨input, hinput, rfl⟩ := Compile.mem_parseAll_iff.mp hf
  obtain ⟨f, hf, heq⟩ := hinputs input hinput
  exact heq ▸ (isValid_of_discover hfound f hf).name

end Stages

end Build
end Schemata
