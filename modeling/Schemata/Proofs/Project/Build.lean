import Schemata.Proofs.Emit.Account
import Schemata.Proofs.Project.FileTree
import Schemata.Proofs.Project.Plan
import Schemata.Proofs.Resolve.WellFormed
import Schemata.Proofs.Target.FileName

/-!
# What a build changes

A build that stops changes nothing.  One that goes on writes its files one after
the other, each below the directory of its backend: writing one file changes no
other place, and no two files have the same place, so at the end each file is as
it was emitted and everything else is as it was, except for directories on the
way to the files.

Writing halts at the first file that has something in its way.  A file that is
written is in the way of no other one, so whether all files are written can be
said of the tree before: `Clear` does not speak of the trees in between.

**Results.** `writeFiles_eq_ok`, `writeFiles_isOk_iff`, `writeFiles_eq_error`,
`build_changes`.
-/

namespace Schemata

namespace Build

/-- The place of a generated file: in the output directory, by backend and path. -/
def target
    (t : FileTree)
    (output : Path)
    (f : OutputFile) :
    Place :=
  t.placeOf output ++ f.backend :: f.path

/-- The places on the way to a generated file. -/
def way
    (t : FileTree)
    (output : Path)
    (f : OutputFile) :
    List Place :=
  FileTree.along (t.origin output) (output.pieces ++ f.backend :: f.path.dropLast)

/-- The backend and the path of a generated file are names. -/
structure IsNamed
    (f : OutputFile) : Prop where
  backend : Path.IsName f.backend
  ne_nil : f.path ≠ []
  path : ∀ name ∈ f.path, Path.IsName name

section Places

variable {t t' : FileTree}
variable {output : Path}
variable {f : OutputFile}

theorem target_congr
    (h : t'.start = t.start) :
    target t' output f = target t output f := by
  rw [target, target, FileTree.placeOf_congr h]

theorem way_congr
    (h : t'.start = t.start) :
    way t' output f = way t output f := by
  rw [way, way, FileTree.origin_congr h]

theorem apart_congr
    (h : t'.start = t.start)
    {files : List OutputFile}
    (hapart : files.Pairwise fun f g => target t output f ≠ target t output g) :
    files.Pairwise fun f g => target t' output f ≠ target t' output g := by
  simpa only [target_congr h] using hapart

/-- Files with different backends or paths have different places. -/
theorem target_inj
    {g : OutputFile} :
    target t output f = target t output g ↔ f.backend = g.backend ∧ f.path = g.path := by
  rw [target, target, List.append_cancel_left_eq, List.cons.injEq]

/-- The backend and the path of a generated file are at least two names. -/
theorem IsNamed.exists_names
    (h : IsNamed f) :
    ∃ front name last, Path.IsName name ∧ Path.IsName last ∧
      f.backend :: f.path = front ++ [name, last] := by
  have hnames : ∀ name ∈ f.backend :: f.path, Path.IsName name :=
    List.forall_mem_cons.mpr ⟨h.backend, h.path⟩
  obtain ⟨init, last, hlast⟩ := (List.eq_nil_or_concat' f.path).resolve_left h.ne_nil
  obtain ⟨front, name, hname⟩ :=
    (List.eq_nil_or_concat' (f.backend :: init)).resolve_left (List.cons_ne_nil _ _)
  have hall : f.backend :: f.path = front ++ [name, last] := by
    rw [hlast, ← List.cons_append, hname]
    simp
  rw [hall] at hnames
  exact ⟨front, name, last, hnames name (by simp), hnames last (by simp), hall⟩

variable (t)
variable (output)

/-- The path of a generated file leads to its place. -/
theorem IsNamed.outputPath
    (h : IsNamed f) :
    (∃ stem name last, Path.IsName name ∧ Path.IsName last ∧
      (Build.outputPath output f).pieces = stem ++ [name, last]) ∧
      t.origin (Build.outputPath output f) = t.origin output ∧
        t.placeOf (Build.outputPath output f) = target t output f ∧
          ∀ q, q ∈ t.wayTo (Build.outputPath output f) ↔ q ∈ way t output f := by
  obtain ⟨stem, hpieces, habsolute, hstem⟩ := output.exists_pieces_join h.backend h.path h.ne_nil
  have horigin : t.origin (Build.outputPath output f) = t.origin output := by
    rw [FileTree.origin, FileTree.origin]
    exact congrArg (fun absolute => if absolute = true then [] else t.start) habsolute
  have hfold := FileTree.foldl_move_of_stem hstem (t.origin output)
  refine ⟨?_, horigin, ?_, fun q => ?_⟩
  · obtain ⟨front, name, last, hname, hlast, hall⟩ := h.exists_names
    exact ⟨stem ++ front, name, last, hname, hlast,
      hpieces.trans (by rw [hall, List.append_assoc])⟩
  · rw [FileTree.placeOf, horigin, Build.outputPath, hpieces, List.foldl_append, ← hfold,
      FileTree.foldl_move_of_isName (List.forall_mem_cons.mpr ⟨h.backend, h.path⟩)]
    rfl
  · rw [FileTree.wayTo, horigin, Build.outputPath, hpieces, way, FileTree.mem_along_append,
      FileTree.mem_along_of_stem hstem, hfold,
      List.dropLast_append_of_ne_nil (List.cons_ne_nil _ _),
      List.dropLast_cons_of_ne_nil h.ne_nil, FileTree.mem_along_append]

/-- What must not be in the way of a generated file. -/
theorem IsNamed.admits_iff
    (h : IsNamed f) :
    t.Admits (Build.outputPath output f) ↔ t.node? (t.origin output) = some .directory ∧
      (∀ q ∈ way t output f, ∀ text, t.node? q ≠ some (.file text)) ∧
        t.node? (target t output f) ≠ some .directory ∧ target t output f ∉ way t output f := by
  obtain ⟨-, horigin, htarget, hway⟩ := h.outputPath t output
  constructor
  · rintro ⟨hstart, hfiles, hfree, hoff⟩
    rw [htarget] at hfree
    rw [htarget, hway] at hoff
    exact ⟨horigin ▸ hstart, fun q hq => hfiles q ((hway q).mpr hq), hfree, hoff⟩
  · rintro ⟨hstart, hfiles, hfree, hoff⟩
    refine ⟨horigin ▸ hstart, fun q hq => hfiles q ((hway q).mp hq), ?_, ?_⟩
    · rwa [htarget]
    · rwa [htarget, hway]

end Places

/-- The generated files are at their places, there are directories on the way to them, and nothing
else is changed, except that directories were made on the way. -/
structure Written
    (output : Path)
    (t : FileTree)
    (files : List OutputFile)
    (t' : FileTree) : Prop where
  start : t'.start = t.start
  free : ∀ f ∈ files, t.node? (target t output f) ≠ some .directory
  file : ∀ f ∈ files, t'.node? (target t output f) = some (.file f.contents)
  directory : ∀ f ∈ files, ∀ q ∈ way t output f, t'.node? q = some .directory
  keeps : ∀ q, (∀ f ∈ files, q ≠ target t output f) →
    t.Keeps t' (files.flatMap (way t output)) q

/-- Nothing is in the way of the generated files: no file stands on the way to one of them, their
places are no directories, and the place of none is on the way to one. -/
structure Clear
    (output : Path)
    (t : FileTree)
    (files : List OutputFile) : Prop where
  passable : ∀ f ∈ files, ∀ q ∈ way t output f, ∀ text, t.node? q ≠ some (.file text)
  place : ∀ f ∈ files, t.node? (target t output f) ≠ some .directory
  apart : ∀ f ∈ files, ∀ g ∈ files, target t output f ∉ way t output g

/-- Writing halts at a file whose writing fails, as something is in its way: the files before it are
written, and nothing else is changed after them, except that directories were made on the way to
it. -/
inductive Halts
    (output : Path)
    (t : FileTree) :
    List OutputFile → FileTree → LoadError → Prop
  | intro
      {before after : List OutputFile}
      {f : OutputFile}
      {made t' : FileTree}
      {e : FileError}
      (hwritten : Written output t before made)
      (hfails : made.writeDeep (outputPath output f) f.contents = (t', .error e))
      (hclosed : ¬ made.Admits (outputPath output f))
      (hkeeps : ∀ q, made.Keeps t' (way t output f) q) :
      Halts output t (before ++ f :: after) t' (.write (outputPath output f).text)

section Writing

variable {t t' t'' : FileTree}
variable {output : Path}
variable {f : OutputFile}
variable {files : List OutputFile}

/-- One generated file is written. -/
theorem puts_of_isNamed
    (h : IsNamed f)
    (hwrite : t.writeDeep (outputPath output f) f.contents = (t', .ok ())) :
    t.Puts t' (target t output f) (way t output f) f.contents := by
  obtain ⟨⟨stem, name, last, hname, hlast, hpieces⟩, -, htarget, hway⟩ := h.outputPath t output
  obtain ⟨hstart, hfree, hfile, hdirectory, hkeeps⟩ :=
    FileTree.puts_of_writeDeep hname hlast hpieces hwrite
  rw [htarget] at hfree hfile hkeeps
  exact ⟨hstart, hfree, hfile, fun q hq => hdirectory q ((hway q).mpr hq),
    fun q hq => (hkeeps q hq).mono fun q hq => (hway q).mp hq⟩

/-- One generated file cannot be written. -/
theorem not_admits_of_isNamed
    (h : IsNamed f)
    {e : FileError}
    (hwrite : t.writeDeep (outputPath output f) f.contents = (t', .error e)) :
    ¬ t.Admits (outputPath output f) ∧ ∀ q, t.Keeps t' (way t output f) q := by
  obtain ⟨⟨stem, name, last, hname, hlast, hpieces⟩, -, -, hway⟩ := h.outputPath t output
  refine ⟨fun hadmits => ?_, fun q => ?_⟩
  · have hok := FileTree.writeDeep_of_admits hname hlast hpieces hadmits f.contents
    rw [hwrite] at hok
    cases hok
  · exact (FileTree.keeps_of_writeDeep hname hlast hpieces hwrite q).mono
      fun q hq => (hway q).mp hq

/-- The output directory is on the way to every generated file. -/
theorem placeOf_mem_way
    (t : FileTree)
    (output : Path)
    (f : OutputFile) :
    t.placeOf output ∈ way t output f :=
  FileTree.mem_along_append.mpr (.inl (FileTree.foldl_mem_along _ _))

/-- Where nothing is in the way of several files, the first can be written. -/
theorem Clear.admits
    (h : Clear output t (f :: files))
    (hf : IsNamed f)
    (hstart : t.node? (t.origin output) = some .directory) :
    t.Admits (outputPath output f) :=
  (hf.admits_iff t output).mpr
    ⟨hstart, h.passable f List.mem_cons_self, h.place f List.mem_cons_self,
      h.apart f List.mem_cons_self f List.mem_cons_self⟩

/-- Where nothing is in the way of several files, nothing is in the way of the others once the first
is written. -/
theorem Clear.of_puts
    (h : Clear output t (f :: files))
    (hother : ∀ g ∈ files, target t output f ≠ target t output g)
    (hputs : t.Puts t' (target t output f) (way t output f) f.contents) :
    Clear output t' files := by
  have htarget : ∀ g, target t' output g = target t output g := fun g => target_congr hputs.start
  have hway : ∀ g, way t' output g = way t output g := fun g => way_congr hputs.start
  obtain ⟨hpassable, hplace, hapart⟩ := h
  refine ⟨fun g hg q hq text hfile => ?_, fun g hg hdirectory => ?_, fun g hg g' hg' => ?_⟩
  · have hmem := List.mem_cons_of_mem f hg
    rw [hway] at hq
    have hne : q ≠ target t output f :=
      fun heq => hapart f List.mem_cons_self g hmem (heq ▸ hq)
    rcases hputs.keeps q hne with heq | ⟨-, hdirectory, -⟩
    · exact hpassable g hmem q hq text (heq.symm.trans hfile)
    · rw [hfile] at hdirectory
      cases hdirectory
  · have hmem := List.mem_cons_of_mem f hg
    rw [htarget] at hdirectory
    rcases hputs.keeps _ (hother g hg).symm with heq | ⟨-, -, hq⟩
    · exact hplace g hmem (heq.symm.trans hdirectory)
    · exact hapart g hmem f List.mem_cons_self hq
  · rw [htarget, hway]
    exact hapart g (List.mem_cons_of_mem f hg) g' (List.mem_cons_of_mem f hg')

/-- Nothing was in the way of files that are written. -/
theorem Written.clear
    (h : Written output t files t') :
    Clear output t files := by
  have hapart : ∀ f ∈ files, ∀ g ∈ files, target t output f ∉ way t output g := by
    intro f hf g hg hmem
    have hdirectory := h.directory g hg _ hmem
    rw [h.file f hf] at hdirectory
    cases hdirectory
  refine ⟨fun f hf q hq text hfile => ?_, h.free, hapart⟩
  have hkept := (h.keeps q fun g hg heq => hapart g hg f hf (heq ▸ hq)).node?_eq hfile
  rw [h.directory f hf q hq] at hkept
  cases hkept

theorem written_nil
    (output : Path)
    (t : FileTree) :
    Written output t [] t where
  start := rfl
  free := fun f hf => (by cases hf)
  file := fun f hf => (by cases hf)
  directory := fun f hf => (by cases hf)
  keeps := fun q _ => .inl rfl

/-- A file and then other files at other places. -/
theorem written_cons
    (hother : ∀ g ∈ files, target t output f ≠ target t output g)
    (hputs : t.Puts t' (target t output f) (way t output f) f.contents)
    (hwritten : Written output t' files t'') :
    Written output t (f :: files) t'' := by
  obtain ⟨hstart, hfree, hfile, hdirectory, hkeeps⟩ := hwritten
  simp only [target_congr hputs.start] at hfree hfile hkeeps
  rw [show way t' output = way t output from funext fun g => way_congr hputs.start] at hkeeps
  simp only [way_congr hputs.start] at hdirectory
  have hmore : files.flatMap (way t output) ⊆ (f :: files).flatMap (way t output) :=
    List.subset_append_right _ _
  refine ⟨hstart.trans hputs.start, ?_, ?_, ?_, fun q hq => ?_⟩
  · refine List.forall_mem_cons.mpr ⟨hputs.free, fun g hg hplace => hfree g hg ?_⟩
    exact (hputs.keeps _ (hother g hg).symm).node?_eq hplace
  · exact List.forall_mem_cons.mpr ⟨(hkeeps _ hother).node?_eq hputs.file, hfile⟩
  · refine List.forall_mem_cons.mpr ⟨fun q hq => ?_, hdirectory⟩
    have hplace := hputs.directory q hq
    refine (hkeeps q fun g hg heq => hfree g hg ?_).node?_eq hplace
    exact heq ▸ hplace
  · obtain ⟨hfirst, hrest⟩ := List.forall_mem_cons.mp hq
    exact ((hputs.keeps q hfirst).mono (List.subset_append_left _ _)).trans
      ((hkeeps q hrest).mono hmore)

section Step

attribute [local irreducible] FileTree.writeDeep

-- What writing does need not be looked at to see what is written next.
theorem writeFiles_cons
    (output : Path)
    (t : FileTree)
    (f : OutputFile)
    (rest : List OutputFile) :
    writeFiles output t (f :: rest) =
      match t.writeDeep (outputPath output f) f.contents with
      | (t, .error _) => (t, .error (.write (outputPath output f).text))
      | (t, .ok ()) =>
          match writeFiles output t rest with
          | (t, .error e) => (t, .error e)
          | (t, .ok written) => (t, .ok (outputPath output f :: written)) := by
  rfl

end Step

/-- Generated files that are written one after the other, at distinct places. -/
theorem writeFiles_eq_ok
    (hnamed : ∀ f ∈ files, IsNamed f)
    (hdistinct : files.Pairwise fun f g => target t output f ≠ target t output g)
    {written : List Path}
    (h : writeFiles output t files = (t', .ok written)) :
    written = files.map (outputPath output) ∧ Written output t files t' := by
  induction files generalizing t written with
  | nil =>
      cases h
      exact ⟨rfl, written_nil output _⟩
  | cons f rest ih =>
      obtain ⟨hf, hrest⟩ := List.forall_mem_cons.mp hnamed
      obtain ⟨hother, hapart⟩ := List.pairwise_cons.mp hdistinct
      rw [writeFiles_cons] at h
      split at h
      · cases h
      · rename_i made hmade
        have hputs := puts_of_isNamed hf hmade
        have hapart' := apart_congr hputs.start hapart
        split at h
        · cases h
        · rename_i paths hpaths
          cases h
          obtain ⟨rfl, hwritten⟩ := ih hrest hapart' hpaths
          exact ⟨rfl, written_cons hother hputs hwritten⟩

/-- Generated files are written if nothing is in their way. -/
theorem writeFiles_of_clear
    (hstart : t.node? (t.origin output) = some .directory)
    (hnamed : ∀ f ∈ files, IsNamed f)
    (hdistinct : files.Pairwise fun f g => target t output f ≠ target t output g)
    (h : Clear output t files) :
    ∃ written, (writeFiles output t files).2 = .ok written := by
  induction files generalizing t with
  | nil =>
      exact ⟨[], rfl⟩
  | cons f rest ih =>
      obtain ⟨hf, hrest⟩ := List.forall_mem_cons.mp hnamed
      obtain ⟨hother, hapart⟩ := List.pairwise_cons.mp hdistinct
      rw [writeFiles_cons]
      split
      · rename_i made e hmade
        exact absurd (h.admits hf hstart) (not_admits_of_isNamed hf hmade).1
      · rename_i made hmade
        have hputs := puts_of_isNamed hf hmade
        have hstart' : made.node? (made.origin output) = some .directory := by
          rw [FileTree.origin_congr hputs.start]
          exact hputs.directory _ (FileTree.mem_along _ _)
        obtain ⟨paths, hpaths⟩ :=
          ih hstart' hrest (apart_congr hputs.start hapart) (h.of_puts hother hputs)
        split
        · rename_i t' e he
          rw [he] at hpaths
          cases hpaths
        · exact ⟨_, rfl⟩

/-- All generated files are written exactly if nothing is in their way. -/
theorem writeFiles_isOk_iff
    (hstart : t.node? (t.origin output) = some .directory)
    (hnamed : ∀ f ∈ files, IsNamed f)
    (hdistinct : files.Pairwise fun f g => target t output f ≠ target t output g) :
    (∃ written, (writeFiles output t files).2 = .ok written) ↔ Clear output t files := by
  refine ⟨fun ⟨written, h⟩ => ?_, writeFiles_of_clear hstart hnamed hdistinct⟩
  exact (writeFiles_eq_ok hnamed hdistinct (Prod.ext rfl h)).2.clear

/-- Writing fails at the first file that cannot be written. -/
theorem writeFiles_eq_error
    (hnamed : ∀ f ∈ files, IsNamed f)
    (hdistinct : files.Pairwise fun f g => target t output f ≠ target t output g)
    {e : LoadError}
    (h : writeFiles output t files = (t', .error e)) :
    Halts output t files t' e := by
  induction files generalizing t with
  | nil =>
      cases h
  | cons f rest ih =>
      obtain ⟨hf, hrest⟩ := List.forall_mem_cons.mp hnamed
      obtain ⟨hother, hapart⟩ := List.pairwise_cons.mp hdistinct
      rw [writeFiles_cons] at h
      split at h
      · rename_i made e' hmade
        cases h
        obtain ⟨hclosed, hkeeps⟩ := not_admits_of_isNamed hf hmade
        exact .intro (written_nil output t) hmade hclosed hkeeps
      · rename_i made hmade
        have hputs := puts_of_isNamed hf hmade
        have hapart' := apart_congr hputs.start hapart
        split at h
        · rename_i t'' e' he
          cases h
          obtain ⟨hwritten, hfails, hclosed, hkeeps⟩ := ih hrest hapart' he
          rw [List.forall_mem_append] at hother
          simp only [way_congr hputs.start] at hkeeps
          rw [← List.cons_append]
          exact .intro (written_cons hother.1 hputs hwritten) hfails hclosed hkeeps
        · cases h

end Writing

section Passing

variable {t : FileTree}
variable {settings : Settings}
variable {backends : List Backend}
variable {sources : Sources}
variable {r : Resolved}
variable {packages : List Nat}
variable (h : Passes t settings backends sources r packages)

include h

/-- The packages that are written are those that a selector chooses, or all if there is none. -/
theorem mem_selected_of_passes
    (package : Nat) :
    package ∈ Emit.selected r.schema ⟨settings.placement, packages⟩ ↔
      package < r.schema.packages.length ∧
        (settings.packages = [] ∨
          ∃ selector ∈ settings.packages, r.schema.Selects selector package) := by
  rw [Emit.mem_selected_iff, Schema.selectAll_eq_nil_iff h.packages,
    Schema.mem_selectAll_iff h.packages]

/-- The emitted files are named, and have distinct places. -/
theorem isNamed_of_passes :
    (∀ f ∈ (emit r.schema backends ⟨settings.placement, packages⟩).files, IsNamed f) ∧
      (emit r.schema backends ⟨settings.placement, packages⟩).files.Pairwise fun f g =>
        target t settings.output f ≠ target t settings.output g := by
  obtain ⟨hlinked, hfit⟩ := linked_of_passes h
  refine ⟨fun f hf => ?_, (Emit.pairwise_files _ _).imp fun {f g} hlt heq => ?_⟩
  · obtain ⟨hbackend, hne, hpath⟩ :=
      Target.isName_of_mem_files hlinked hfit (Target.mem_all_of_select h.targets) hf
    exact ⟨hbackend, hne, hpath⟩
  · obtain ⟨hbackend, hpath⟩ := target_inj.mp heq
    rw [hbackend, hpath] at hlt
    exact lt_irrefl _ hlt

end Passing

end Build

/-- A build that has a reason to stop changes nothing and writes nothing.  Any other build passes
all its stages and emits files for the packages that a selector chooses, or for all packages if no
selector is given.  Where paths start in a directory, it does not fail exactly if nothing is in the
way of these files.  When it does not fail, it has written them, to their places and as they are,
and nothing else is changed, except that directories were made on the way to them.  When it fails,
it halts at one of them that cannot be written. -/
theorem build_changes
    (t : FileTree)
    (settings : Settings) :
    (Build.Stops t settings →
      (build t settings).1 = t ∧
        ∀ report, (build t settings).2 = .ok report → report.written = []) ∧
    (¬ Build.Stops t settings → ∃ backends sources r packages files,
      Build.Passes t settings backends sources r packages ∧
        files = (emit r.schema backends ⟨settings.placement, packages⟩).files ∧
        (∀ package, package ∈ Emit.selected r.schema ⟨settings.placement, packages⟩ ↔
          package < r.schema.packages.length ∧
            (settings.packages = [] ∨
              ∃ selector ∈ settings.packages, r.schema.Selects selector package)) ∧
        (t.node? (t.origin settings.output) = some .directory →
          ((∃ report, (build t settings).2 = .ok report) ↔
            Build.Clear settings.output t files)) ∧
        (∀ report, (build t settings).2 = .ok report →
          report.written = files.map (Build.outputPath settings.output) ∧
            Build.Written settings.output t files (build t settings).1) ∧
        ∀ e, (build t settings).2 = .error e →
          Build.Halts settings.output t files (build t settings).1 e) := by
  refine ⟨fun hstops => ?_, fun hgoes => ?_⟩
  · obtain ⟨e, hplan⟩ | ⟨diagnostics, hplan⟩ :=
      ((Build.passes_or_stops t settings).resolve_left fun ⟨_, _, _, _, hpasses⟩ =>
        Build.not_stops_of_passes hpasses hstops).2
    · rw [build, hplan]
      exact ⟨rfl, fun report hreport => (by cases hreport)⟩
    · rw [build, hplan]
      exact ⟨rfl, fun report hreport => (by cases hreport; rfl)⟩
  · obtain ⟨backends, sources, r, packages, hpasses⟩ :=
      (Build.passes_or_stops t settings).resolve_right fun hstops => hgoes hstops.1
    obtain ⟨diagnostics, hplan⟩ := Build.plan_of_passes hpasses
    obtain ⟨hnamed, hdistinct⟩ := Build.isNamed_of_passes hpasses
    refine ⟨backends, sources, r, packages, _, hpasses, rfl,
      Build.mem_selected_of_passes hpasses, ?_⟩
    have hwrites := fun hstart : t.node? (t.origin settings.output) = some .directory =>
      Build.writeFiles_isOk_iff hstart hnamed hdistinct
    rw [build, hplan]
    dsimp only
    split
    · rename_i t' e he
      rw [he] at hwrites
      refine ⟨fun hstart => ?_, fun report hreport => (by cases hreport), fun e' he' => ?_⟩
      · rw [← hwrites hstart]
        exact iff_of_false (fun ⟨report, h⟩ => (by cases h)) fun ⟨written, h⟩ => (by cases h)
      · cases he'
        exact Build.writeFiles_eq_error hnamed hdistinct he
    · rename_i t' written hwritten
      rw [hwritten] at hwrites
      refine ⟨fun hstart => ?_, fun report hreport => ?_, fun e he => (by cases he)⟩
      · rw [← hwrites hstart]
        exact iff_of_true ⟨_, rfl⟩ ⟨_, rfl⟩
      · cases hreport
        exact Build.writeFiles_eq_ok hnamed hdistinct hwritten

namespace Sample

/-- A project with one source file. -/
def project : FileTree :=
  { start := []
    entries :=
      [(["proto"], .directory),
        (["proto", "foo.reproto"], .file "type A {}")]
    distinct := by decide }

/-- The project with a file where the output is to be. -/
def blocked : FileTree :=
  project.insert ["out"] (.file "")

/-- One package is written for two targets. -/
def settings : Settings :=
  { paths := [⟨"proto"⟩]
    output := ⟨"out"⟩
    targets := ["csharp", "js"]
    packages := ["foo"]
    resolve := options
    placement := .last }

/-- The source file, with its text. -/
def sources : Sources :=
  ⟨[⟨"proto/foo.reproto"⟩], [⟨0, ⟨⟨["foo"]⟩, none⟩, "type A {}"⟩]⟩

/-- The schema of the source file. -/
def fooSchema : Schema :=
  ⟨[{ identity := ⟨⟨["foo"]⟩, none⟩
      ns := ⟨["foo"], none⟩
      doc := []
      decls := [⟨⟨0, 0⟩, "A", [], none, [], .type [], ⟨0, 0, 9⟩⟩]
      roots := [0] }]⟩

/-- The files that are emitted for the package. -/
def fooFiles : List OutputFile :=
  [(Emit.Bundle.mk Target.csharp ["Foo", "A.cs"] [⟨0, 0⟩]).file fooSchema .last,
    (Emit.Bundle.mk Target.javascript ["foo.js"] [⟨0, 0⟩]).file fooSchema .last]

theorem load_project
    {t : FileTree}
    (ht : t = project ∨ t = blocked) :
    Build.load t settings.paths = .ok sources := by
  have hfiles : t.filesBelow ⟨"proto"⟩ = [["foo.reproto"]] := by
    rcases ht with rfl | rfl
    · exact List.mergeSort_singleton _
    · exact List.mergeSort_singleton _
  have hsources : Discover.sourcesBelow t ⟨"proto"⟩ = [⟨"proto/foo.reproto"⟩] := by
    rw [Discover.sourcesBelow, hfiles]
    decide +kernel
  have hroot : t.isDirectory ⟨"proto"⟩ = true := by
    rcases ht with rfl | rfl <;> decide
  have hadded : Discover.addFiles ⟨"proto"⟩ [] [⟨"proto/foo.reproto"⟩] =
      .ok [⟨⟨"proto/foo.reproto"⟩, ⟨⟨["foo"]⟩, none⟩⟩] := by
    decide +kernel
  have hfound : discover t settings.paths = .ok [⟨⟨"proto/foo.reproto"⟩, ⟨⟨["foo"]⟩, none⟩⟩] := by
    rw [discover, settings, Discover.addRoots, if_pos hroot, hsources, hadded]
    rfl
  rw [Build.load, hfound]
  rcases ht with rfl | rfl <;> rfl

theorem passes_project
    {t : FileTree}
    (ht : t = project ∨ t = blocked) :
    Build.Passes t settings [Target.csharp, Target.javascript] sources ⟨fooSchema, []⟩ [0] where
  targets := rfl
  load := load_project ht
  parsed := List.forall_mem_singleton.mpr (by decide +kernel)
  resolved := by
    have hparsed : (Compile.parseAll sources.inputs).1 =
        [⟨0, ⟨⟨["foo"]⟩, none⟩,
          ⟨[], [], [⟨[], [], ⟨"A", ⟨0, 5, 6⟩⟩, .type [], ⟨0, 0, 9⟩⟩]⟩⟩] := by
      with_unfolding_all rfl
    rw [hparsed]
    cbv
  packages := by
    decide +kernel

theorem files_foo :
    (emit fooSchema [Target.csharp, Target.javascript] ⟨.last, [0]⟩).files = fooFiles := by
  have hnames : ([Target.csharp, Target.javascript].map (·.name)).Nodup := by
    decide
  have hdone : (Emit.done fooSchema ⟨.last, [0]⟩ [Target.csharp, Target.javascript]).map
      (·.key fooSchema) = [("csharp", ["Foo", "A.cs"]), ("js", ["foo.js"])] := by
    decide +kernel
  have hkeys : Emit.keys fooSchema ⟨.last, [0]⟩ [Target.csharp, Target.javascript] =
      [("csharp", ["Foo", "A.cs"]), ("js", ["foo.js"])] := by
    rw [Emit.keys, hdone]
    exact List.mergeSort_of_pairwise (by decide)
  rw [Emit.files_eq_bundles _ _ hnames, Emit.bundles, hkeys]
  rfl

theorem clear_project :
    Build.Clear settings.output project fooFiles where
  passable := by
    have hway : ∀ f ∈ fooFiles, ∀ q ∈ Build.way project ⟨"out"⟩ f,
        project.node? q ∈ [none, some .directory] := by
      decide
    intro f hf q hq text hfile
    have hnode := hway f hf q hq
    rw [hfile] at hnode
    simp at hnode
  place := by
    decide
  apart := by
    decide

/-- Nothing can be written where the output is a file. -/
theorem not_written_blocked
    {files : List OutputFile}
    {made : FileTree}
    (hne : files ≠ []) :
    ¬ Build.Written settings.output blocked files made := by
  intro hwritten
  obtain ⟨f, hf⟩ := List.exists_mem_of_ne_nil files hne
  have hway : ["out"] ∈ Build.way blocked settings.output f :=
    Build.placeOf_mem_way blocked ⟨"out"⟩ f
  exact hwritten.clear.passable f hf ["out"] hway "" rfl

/-- Where the output is a file, writing halts at the first file. -/
theorem eq_of_halts_blocked
    {t' : FileTree}
    {e : LoadError}
    (h : Build.Halts settings.output blocked fooFiles t' e) :
    e = .write "out/csharp/Foo/A.cs" := by
  generalize hfoo : fooFiles = files at h
  obtain @⟨before, after, f, made, t', _, hwritten, -, -, -⟩ := h
  cases before with
  | nil =>
      obtain rfl := (List.cons.inj hfoo).1
      exact congrArg LoadError.write (by decide +kernel)
  | cons g before =>
      exact absurd hwritten (not_written_blocked (List.cons_ne_nil g before))

end Sample

/-- The project is built: its files are written, and the source is as it was.  It is not built for a
package that is not there, nor where a file is in the way. -/
theorem build_changes_foo :
    (∃ report, (build Sample.project Sample.settings).2 = .ok report ∧
      report.written = [⟨"out/csharp/Foo/A.cs"⟩, ⟨"out/js/foo.js"⟩]) ∧
    (∀ f ∈ Sample.fooFiles, (build Sample.project Sample.settings).1.node?
      ("out" :: f.backend :: f.path) = some (.file f.contents)) ∧
    (build Sample.project Sample.settings).1.node? ["proto", "foo.reproto"] =
      some (.file "type A {}") ∧
    (build Sample.project { Sample.settings with packages := ["foo", "bar"] }).1 = Sample.project ∧
    (build Sample.blocked Sample.settings).2 = .error (.write "out/csharp/Foo/A.cs") := by
  have hproject := Sample.passes_project (.inl rfl)
  have hblocked := Sample.passes_project (.inr rfl)
  have hbuilt : (∃ report, (build Sample.project Sample.settings).2 = .ok report ∧
      report.written = Sample.fooFiles.map (Build.outputPath ⟨"out"⟩)) ∧
      Build.Written ⟨"out"⟩ Sample.project Sample.fooFiles
        (build Sample.project Sample.settings).1 := by
    obtain ⟨_, _, _, _, files, hpasses, hfiles, -, hok, hwritten, -⟩ :=
      (build_changes Sample.project Sample.settings).2 (Build.not_stops_of_passes hproject)
    obtain ⟨rfl, rfl, rfl⟩ := hpasses.unique hproject
    obtain rfl : files = Sample.fooFiles := hfiles.trans Sample.files_foo
    obtain ⟨report, hreport⟩ := (hok rfl).mpr Sample.clear_project
    obtain ⟨hpaths, hnodes⟩ := hwritten report hreport
    exact ⟨⟨report, hreport, hpaths⟩, hnodes⟩
  have hstopped :
      Build.Stops Sample.project { Sample.settings with packages := ["foo", "bar"] } := by
    have hselector : "bar" ∈ ["foo", "bar"] := by
      decide
    have hunknown : Sample.fooSchema.selectPackages "bar" = .error (.unknownPackage "bar") := by
      decide +kernel
    exact .selection hproject.load hproject.resolved hselector hunknown
  have hhalted : (build Sample.blocked Sample.settings).2 =
      .error (.write "out/csharp/Foo/A.cs") := by
    obtain ⟨_, _, _, _, files, hpasses, hfiles, -, -, hwritten, hhalts⟩ :=
      (build_changes Sample.blocked Sample.settings).2 (Build.not_stops_of_passes hblocked)
    obtain ⟨rfl, rfl, rfl⟩ := hpasses.unique hblocked
    obtain rfl : files = Sample.fooFiles := hfiles.trans Sample.files_foo
    cases hresult : (build Sample.blocked Sample.settings).2 with
    | ok report =>
        exact absurd (hwritten report hresult).2 (Sample.not_written_blocked (List.cons_ne_nil _ _))
    | error e =>
        rw [Sample.eq_of_halts_blocked (hhalts e hresult)]
  refine ⟨?_, fun f hf => hbuilt.2.file f hf, ?_, ?_, hhalted⟩
  · obtain ⟨report, hreport, hpaths⟩ := hbuilt.1
    exact ⟨report, hreport, hpaths.trans (by decide +kernel)⟩
  · have hkept := hbuilt.2.keeps ["proto", "foo.reproto"] (by decide)
    exact hkept.node?_eq rfl
  · exact ((build_changes _ _).1 hstopped).1

end Schemata
