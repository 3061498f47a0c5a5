import Schemata.Proofs.Target.FileName
import Schemata.Proofs.Target.Import

/-!
# JavaScript: the way from one module to another

A module names another one by the steps from its own directory: out of what the
two do not share, and in again.  A step out undoes the step into a directory, so
the way leads to the other module whatever the two share.  It begins with a dot,
since the file at its end has a name that no directory has.

**Results.**
* `arrive?_relative`: the way from a directory to a file leads to the file.
* `resolve_specifiers`: the specifiers in the modules of files that resolve.
-/

namespace Schemata
namespace Target
namespace JavaScript

section Steps

/-- Where one step leads; there is no step out of the outermost directory. -/
def step?
    (place : List String) :
    String → Option (List String)
  | "." => some place
  | ".." => if place = [] then none else some place.dropLast
  | name => some (place ++ [name])

/-- Where the steps of a specifier lead from a directory. -/
def arrive?
    (directory : List String)
    (specifier : String) :
    Option (List String) :=
  (Text.split '/' specifier).foldlM step? directory

theorem step?_of_isName
    {name : String}
    (h : Path.IsName name)
    (place : List String) :
    step? place name = some (place ++ [name]) := by
  have hstep := h.step
  unfold step?
  split
  · cases hstep
  · cases hstep
  · rfl

/-- Names lead further in. -/
theorem foldlM_names
    {names : List String}
    (h : ∀ name ∈ names, Path.IsName name)
    (place : List String) :
    names.foldlM step? place = some (place ++ names) := by
  induction names generalizing place with
  | nil =>
      simp
  | cons name names ih =>
      obtain ⟨hname, hnames⟩ := List.forall_mem_cons.mp h
      rw [List.foldlM_cons, step?_of_isName hname, Option.bind_eq_bind, Option.bind_some,
        ih hnames, List.append_assoc, List.singleton_append]

/-- As many steps out as there are names lead back. -/
theorem foldlM_outward
    (place names : List String) :
    (List.replicate names.length "..").foldlM step? (place ++ names) = some place := by
  induction names using List.reverseRecOn with
  | nil =>
      simp
  | append_singleton names name ih =>
      have hstep : step? (place ++ (names ++ [name])) ".." = some (place ++ names) := by
        rw [← List.append_assoc, step?, if_neg (List.concat_ne_nil _ _), List.dropLast_concat]
      rw [List.length_append, List.length_singleton, List.replicate_succ, List.foldlM_cons, hstep]
      exact ih

end Steps

section Shared

variable (as bs : List String)

/-- Two lists agree in what they share. -/
theorem take_common :
    as.take (common as bs) = bs.take (common as bs) := by
  fun_induction common as bs with
  | case1 as b bs ih =>
      rw [List.take_succ_cons, List.take_succ_cons, ih]
  | case2 a as b bs hne =>
      rfl
  | case3 =>
      simp

end Shared

section Ways

variable {directory file : List String}

/-- The way out of a directory, which says so when there is none to go. -/
theorem foldlM_out
    (place names : List String) :
    (if (List.replicate names.length "..").isEmpty then ["."]
      else List.replicate names.length "..").foldlM step? (place ++ names) = some place := by
  have hback := foldlM_outward place names
  split
  · rename_i hempty
    rwa [List.isEmpty_iff.mp hempty] at hback
  · exact hback

/-- The steps from a directory to a file lead to the file. -/
theorem foldlM_relativeSteps
    (hfile : ∀ name ∈ file, Path.IsName name) :
    (relativeSteps directory file).foldlM step? directory = some file := by
  have hout := foldlM_out (directory.take (common directory file))
    (directory.drop (common directory file))
  rw [List.take_append_drop, List.length_drop] at hout
  have hin : (file.drop (common directory file)).foldlM step?
      (directory.take (common directory file)) = some file := by
    rw [foldlM_names fun name hname => hfile name (List.mem_of_mem_drop hname), take_common,
      List.take_append_drop]
  simp only [relativeSteps, List.foldlM_append, hout, Option.bind_eq_bind, Option.bind_some, hin]

/-- The steps to a file that is no directory on the way go out, or stay, and then in. -/
theorem exists_relativeSteps
    (hfile : ∃ name ∈ file, name ∉ directory) :
    ∃ first second rest, relativeSteps directory file = first :: second :: rest ∧
      (first = "." ∨ first = "..") := by
  have hin : file.drop (common directory file) ≠ [] := by
    intro hnone
    obtain ⟨name, hname, hnot⟩ := hfile
    have htake : directory.take (common directory file) = file := by
      rw [take_common]
      simpa [hnone] using List.take_append_drop (common directory file) file
    exact hnot (List.mem_of_mem_take (htake ▸ hname))
  obtain ⟨name, names, hcons⟩ := List.exists_cons_of_ne_nil hin
  simp only [relativeSteps, hcons]
  cases directory.length - common directory file with
  | zero =>
      exact ⟨".", name, names, rfl, .inl rfl⟩
  | succ n =>
      cases n with
      | zero =>
          exact ⟨"..", name, names, rfl, .inr rfl⟩
      | succ n =>
          exact ⟨"..", "..", List.replicate n ".." ++ name :: names, rfl, .inr rfl⟩

theorem slash_not_mem_relativeSteps
    (hfile : ∀ name ∈ file, Path.IsName name) :
    ∀ step ∈ relativeSteps directory file, '/' ∉ step.toList := by
  intro step hstep
  rcases List.mem_append.mp hstep with hout | hin
  · split at hout
    · rw [List.mem_singleton.mp hout]
      decide
    · rw [List.eq_of_mem_replicate hout]
      decide
  · exact (hfile step (List.mem_of_mem_drop hin)).slash

variable {source target : List String}
variable (htarget : ∀ name ∈ target, Path.IsName name)
variable (hfile : ∃ name ∈ target, name ∉ source.dropLast)

include hfile

/-- The way from one file to another begins with a step out, or with a dot. -/
theorem exists_relative_eq :
    ∃ rest, relative source target = "./" ++ rest ∨ relative source target = "../" ++ rest := by
  obtain ⟨first, second, rest, hsteps, hfirst⟩ := exists_relativeSteps hfile
  refine ⟨String.intercalate "/" (second :: rest), ?_⟩
  rw [relative, hsteps, String.intercalate_cons_cons]
  rcases hfirst with rfl | rfl
  · exact .inl rfl
  · exact .inr rfl

include htarget

/-- The way from one file to another leads there from the directory of the first. -/
theorem arrive?_relative :
    arrive? source.dropLast (relative source target) = some target := by
  obtain ⟨first, second, rest, hsteps, -⟩ := exists_relativeSteps hfile
  have hsplit : Text.split '/' (relative source target) = relativeSteps source.dropLast target :=
    Text.split_intercalate (by simp [hsteps]) (slash_not_mem_relativeSteps htarget)
  rw [arrive?, hsplit, foldlM_relativeSteps htarget]

end Ways

section Modules

variable {p q : Package}

theorem modulePath_eq_append
    (hp : p.ns.WellFormed) :
    ∃ last : String, modulePath p = (segments p).dropLast ++ [last ++ "." ++ "js"] := by
  have hne := segments_ne_nil hp
  refine ⟨(segments p).getLast hne, ?_⟩
  rw [modulePath]
  conv_lhs => rw [← List.dropLast_append_getLast hne]
  exact Emit.namespaceFile_concat "js" _ _

theorem isName_of_mem_modulePath
    (hp : p.ns.WellFormed) :
    ∀ name ∈ modulePath p, Path.IsName name :=
  (Emit.isName_of_mem_namespaceFile hp (.inl rfl) (by decide)).2

/-- The file of a module has a dot in its name, which no directory has. -/
theorem exists_mem_modulePath
    (hp : p.ns.WellFormed)
    (hq : q.ns.WellFormed) :
    ∃ name ∈ modulePath q, name ∉ (modulePath p).dropLast := by
  obtain ⟨last, hlast⟩ := modulePath_eq_append hq
  obtain ⟨other, hother⟩ := modulePath_eq_append hp
  refine ⟨last ++ "." ++ "js", by simp [hlast], fun hmem => ?_⟩
  rw [hother, List.dropLast_concat] at hmem
  have hident := Emit.isIdentText_namespaceSegments_none hp _ (List.mem_of_mem_dropLast hmem)
  exact absurd (hident '.' (by simp [String.toList_append])) (by decide)

end Modules

end JavaScript

/-- Specifiers in the modules of files that resolve.  From the directory of a module, the way to
another package leads to the module of that package and of no other, without a step out of the
outermost directory; and it is a relative specifier, so that it begins with a dot. -/
theorem resolve_specifiers
    {options : ResolveOptions}
    {files : List SourceFile}
    {r : Resolved}
    (h : resolve options files = .ok r)
    (hnames : ∀ f ∈ files, f.identity.name.IsValid)
    {p q : Nat}
    (hp : p < r.schema.packages.length)
    (hq : q < r.schema.packages.length) :
    let source := JavaScript.modulePath (r.schema.package p)
    let target := JavaScript.modulePath (r.schema.package q)
    JavaScript.arrive? source.dropLast (JavaScript.relative source target) = some target ∧
      (∀ other < r.schema.packages.length,
        JavaScript.arrive? source.dropLast (JavaScript.relative source target) =
          some (JavaScript.modulePath (r.schema.package other)) → other = q) ∧
      ∃ rest, JavaScript.relative source target = "./" ++ rest ∨
        JavaScript.relative source target = "../" ++ rest := by
  intro source target
  have hfit := Resolve.namespacesFit_of_resolve h hnames
  have hwp := hfit.wellFormed_package hp
  have hwq := hfit.wellFormed_package hq
  have hfile := JavaScript.exists_mem_modulePath hwp hwq
  have harrive := JavaScript.arrive?_relative (JavaScript.isName_of_mem_modulePath hwq) hfile
  refine ⟨harrive, fun other hother heq => ?_, JavaScript.exists_relative_eq hfile⟩
  have hpath : JavaScript.modulePath (r.schema.package other) = target :=
    Option.some.inj (heq.symm.trans harrive)
  exact (modulePath_eq_iff hfit hother hq).mp hpath

/-- A module in a directory names one beside the directory, whose name begins alike. -/
theorem resolve_specifiers_confused :
    resolve Sample.options [Sample.leaf 0 ["foo", "bar"], Sample.leaf 1 ["foo_bar"],
        Sample.gathering 2 [⟨["foo", "bar"]⟩, ⟨["foo_bar"]⟩]] = .ok ⟨Sample.confusedSchema, []⟩ ∧
      JavaScript.relative ["foo", "bar.js"] ["foo_bar.js"] = "../foo_bar.js" ∧
      JavaScript.arrive? ["foo"] "../foo_bar.js" = some ["foo_bar.js"] := by
  have hvalid : ∀ f ∈ [Sample.leaf 0 ["foo", "bar"], Sample.leaf 1 ["foo_bar"],
      Sample.gathering 2 [⟨["foo", "bar"]⟩, ⟨["foo_bar"]⟩]], f.identity.name.IsValid := by
    intro f hf
    simp only [List.mem_cons, List.not_mem_nil, or_false] at hf
    rcases hf with rfl | rfl | rfl
    · exact ⟨"foo.bar", by decide +kernel⟩
    · exact ⟨"foo_bar", by decide +kernel⟩
    · exact ⟨"main", by decide +kernel⟩
  have hsource : JavaScript.modulePath (Sample.confusedSchema.package 0) = ["foo", "bar.js"] := by
    decide +kernel
  have htarget : JavaScript.modulePath (Sample.confusedSchema.package 1) = ["foo_bar.js"] := by
    decide +kernel
  have hrelative : JavaScript.relative ["foo", "bar.js"] ["foo_bar.js"] = "../foo_bar.js" := by
    decide +kernel
  have hway := (resolve_specifiers Sample.resolve_confused hvalid (p := 0) (q := 1)
    (by decide) (by decide)).1
  rw [hsource, htarget, hrelative] at hway
  exact ⟨Sample.resolve_confused, hrelative, hway⟩

end Target
end Schemata
