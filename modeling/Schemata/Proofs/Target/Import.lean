import Schemata.Proofs.Target.Capture
import Schemata.Proofs.Target.Identifier

/-!
# JavaScript: the names under which modules are imported

A module imports another package under the segments of its namespace, with
underscores between them.  Parts of package names have underscores themselves, so
two packages can be imported under one name: exactly those whose namespaces are cut
at dots and underscores into the same pieces.

The name of an import is used inside the method that reads a class, and inside the
functions around the reference.  What these bind begins with a small letter as the
name of an import does, so that it can be the name of an import as well.

**Results.**
* `importName_eq_iff`: when two packages are imported under one name.
* `importName_mem_bound_iff`: when something bound around a reference takes the name.
* `resolve_imports`: the same of all modules of files that resolve.
-/

namespace Schemata
namespace Target
namespace JavaScript

open Naming (Language)

section Names

/-- The pieces of a namespace between dots and underscores. -/
def pieces
    (p : Package) :
    List (List Char) :=
  (segments p).flatMap (·.toList.splitOn '_')

theorem head?_mark
    (text : String) :
    (Language.javascript.mark.apply text).toList.head? = some '_' := by
  simp [Naming.Language.mark, Naming.Mark.apply, String.toList_append]

/-- A word that is not reserved and begins with no underscore is the spelling of itself only. -/
theorem spell_eq_iff_of_free
    {text word : String}
    (hfree : Language.javascript.isReserved word = false)
    (hhead : word.toList.head? ≠ some '_') :
    Language.javascript.spell text = word ↔ text = word := by
  constructor
  · intro h
    unfold Language.spell at h
    split at h
    · exact absurd (head?_mark text) (h ▸ hhead)
    · exact h
  · rintro rfl
    rw [Language.spell, hfree]
    rfl

/-- Marking a name if it is reserved confuses no two names without an underscore in front. -/
theorem spell_eq_spell_iff
    {a b : String}
    (ha : a.toList.head? ≠ some '_')
    (hb : b.toList.head? ≠ some '_') :
    Language.javascript.spell a = Language.javascript.spell b ↔ a = b := by
  refine ⟨fun h => ?_, fun h => h ▸ rfl⟩
  unfold Language.spell at h
  split at h <;> split at h
  · exact (String.append_right_inj "_").mp h
  · exact absurd (head?_mark a) (h ▸ hb)
  · exact absurd (head?_mark b) (h ▸ ha)
  · exact h

theorem underscore_mem_intercalate
    (first second : String)
    (rest : List String) :
    '_' ∈ (String.intercalate "_" (first :: second :: rest)).toList := by
  rw [String.toList_intercalate, List.map_cons, List.map_cons, List.intercalate_cons_cons]
  simp

/-- A text without underscores is joined of one segment only. -/
theorem intercalate_eq_iff
    {texts : List String}
    (hne : texts ≠ [])
    {word : String}
    (hword : '_' ∉ word.toList) :
    String.intercalate "_" texts = word ↔ texts = [word] := by
  cases texts with
  | nil =>
      exact absurd rfl hne
  | cons first rest =>
      cases rest with
      | nil =>
          simp
      | cons second rest =>
          constructor
          · rintro rfl
            exact absurd (underscore_mem_intercalate first second rest) hword
          · intro h
            cases h

variable {p q : Package}

theorem segments_eq_append
    (p : Package) :
    segments p = p.ns.parts ++ p.ns.version.toList := by
  rw [segments, Emit.namespaceSegments, List.map_id']

theorem segments_ne_nil
    (hp : p.ns.WellFormed) :
    segments p ≠ [] := by
  simp [segments_eq_append, hp.ne_nil]

/-- One segment is one part without a version. -/
theorem segments_eq_singleton_iff
    (hp : p.ns.WellFormed)
    (word : String) :
    segments p = [word] ↔ p.ns = ⟨[word], none⟩ := by
  have hne := hp.ne_nil
  rw [segments_eq_append]
  generalize p.ns = ns at hne
  obtain ⟨parts, version⟩ := ns
  cases parts with
  | nil => exact absurd rfl hne
  | cons part parts => cases version <;> simp

theorem splitOn_intercalate_segments
    (hp : p.ns.WellFormed) :
    (String.intercalate "_" (segments p)).toList.splitOn '_' = pieces p := by
  have hne : (segments p).map String.toList ≠ [] := by
    simpa using segments_ne_nil hp
  have hjoint : "_".toList = ['_'] := rfl
  rw [String.toList_intercalate, hjoint, Swift.splitOn_intercalate_eq_flatMap hne,
    List.flatMap_map]
  rfl

theorem head?_intercalate_segments
    (hp : p.ns.WellFormed) :
    (String.intercalate "_" (segments p)).toList.head? ≠ some '_' := by
  obtain ⟨part, parts, hparts⟩ := List.exists_cons_of_ne_nil hp.ne_nil
  obtain ⟨c, cs, hpart, hlower, -⟩ :=
    PackageName.exists_cons_of_isPart (hp.parts part (hparts ▸ List.mem_cons_self))
  obtain ⟨after, htext, -⟩ := toList_intercalate_cons "_" part (parts ++ p.ns.version.toList)
  rw [segments_eq_append, hparts, List.cons_append, htext, hpart, List.cons_append,
    List.head?_cons]
  intro heq
  rw [Option.some.inj heq] at hlower
  cases hlower

/-- Two packages are imported under one name when their namespaces have the same pieces. -/
theorem importName_eq_iff
    (hp : p.ns.WellFormed)
    (hq : q.ns.WellFormed) :
    importName p = importName q ↔ pieces p = pieces q := by
  rw [← splitOn_intercalate_segments hp, ← splitOn_intercalate_segments hq, importName, importName,
    spell_eq_spell_iff (head?_intercalate_segments hp) (head?_intercalate_segments hq)]
  exact ⟨fun h => h ▸ rfl, fun h => String.toList_inj.mp (Swift.splitOn_injective h)⟩

/-- The name of an import is a free word without underscores when the namespace is this word. -/
theorem importName_eq_plain_iff
    (hp : p.ns.WellFormed)
    {word : String}
    (hfree : Language.javascript.isReserved word = false)
    (hword : '_' ∉ word.toList) :
    importName p = word ↔ p.ns = ⟨[word], none⟩ := by
  have hhead : word.toList.head? ≠ some '_' := fun h => hword (List.mem_of_head? h)
  rw [importName, spell_eq_iff_of_free hfree hhead, intercalate_eq_iff (segments_ne_nil hp) hword,
    segments_eq_singleton_iff hp]

end Names

section Bound

variable {s : Schema}

/-- What is bound around a reference in the method that reads a class: the variables of the method
and the parameters of the functions around it.  The parameter of a function that reads keys is not
among them, since such a function has no reference in it. -/
def bound
    (s : Schema)
    (x : Site)
    (ref : Mention) :
    List String :=
  locals s x ++ (List.range ref.depth).map parameter

theorem isReserved_of_underscore_mem
    {word : String}
    (h : '_' ∈ word.toList) :
    Language.javascript.isReserved word = false := by
  rw [Language.isReserved, List.contains_eq_mem, decide_eq_false_iff_not]
  exact fun hmem => Language.underscore_not_mem_reserved _ hmem h

theorem toList_localName
    (m : Emit.Member) :
    (localName m).toList = 'v' :: '_' :: m.ident.toList := by
  have hname : localName m = "v_" ++ m.ident := rfl
  rw [hname, String.toList_append]
  rfl

theorem toList_parameter
    (n : Nat) :
    (parameter n).toList = 'v' :: (toString n).toList := by
  have hname : parameter n = "v" ++ toString n := rfl
  rw [hname, String.toList_append]
  rfl

theorem underscore_not_mem_parameter
    (n : Nat) :
    '_' ∉ (parameter n).toList := by
  rw [toList_parameter, List.mem_cons, not_or]
  exact ⟨by decide, Text.underscore_not_mem_toString n⟩

/-- A parameter has a digit, which no reserved word has. -/
theorem isReserved_parameter
    (n : Nat) :
    Language.javascript.isReserved (parameter n) = false := by
  have hwords : (Naming.javascriptWords.all fun word => !word.toList.any Char.isDigit) = true := by
    decide +kernel
  rw [Language.isReserved, List.contains_eq_mem, decide_eq_false_iff_not]
  intro hmem
  have hnone : ∀ c ∈ Nat.toDigits 10 n, c.isDigit = false := by
    simpa [toList_parameter] using List.all_eq_true.mp hwords _ hmem
  obtain ⟨c, cs, hdigits⟩ := List.exists_cons_of_ne_nil (Nat.toDigits_ne_nil (b := 10) (n := n))
  have hc : c ∈ Nat.toDigits 10 n := by
    simp [hdigits]
  have hdigit := Nat.isDigit_of_mem_toDigits (by decide) (by decide) hc
  rw [hnone c hc] at hdigit
  cases hdigit

/-- A class that refers to another package reads no tag. -/
theorem tagLocals_of_import
    {x : Site}
    {ref : Mention}
    (href : ref ∈ references s x)
    (hne : ref.decl.package ≠ x.place.package) :
    tagLocals s x = [] := by
  cases x with
  | case id c =>
      rfl
  | decl id =>
      cases hbody : (s.decl id).body with
      | type | tuple | enum | service =>
          simp only [tagLocals, hbody]
      | interface body =>
          -- the class of an interface names itself only
          rcases List.mem_append.mp href with hfield | hcase
          · simp [Site.fields, hbody] at hfield
          · obtain ⟨c, -, rfl⟩ := List.mem_map.mp hcase
            exact absurd rfl hne

/-- Something bound around a reference takes the name under which a package is imported: the
variable of the document, the variable of a property, or a parameter. -/
theorem importName_mem_bound_iff
    {x : Site}
    {ref : Mention}
    (htag : tagLocals s x = [])
    {p : Package}
    (hp : p.ns.WellFormed) :
    importName p ∈ bound s x ref ↔
      p.ns = ⟨["data"], none⟩ ∨
        (∃ m ∈ properties (x.fields s), String.intercalate "_" (segments p) = localName m) ∨
          ∃ n < ref.depth, p.ns = ⟨[parameter n], none⟩ := by
  have hdata : importName p = "data" ↔ p.ns = ⟨["data"], none⟩ :=
    importName_eq_plain_iff hp (by decide) (by decide)
  have hlocal : ∀ m : Emit.Member, importName p = localName m ↔
      String.intercalate "_" (segments p) = localName m := by
    intro m
    refine spell_eq_iff_of_free (isReserved_of_underscore_mem ?_) ?_ <;> simp [toList_localName]
  have hparameter : ∀ n, importName p = parameter n ↔ p.ns = ⟨[parameter n], none⟩ :=
    fun n => importName_eq_plain_iff hp (isReserved_parameter n) (underscore_not_mem_parameter n)
  simp only [bound, locals, htag, List.nil_append, List.mem_append, List.mem_cons, List.mem_map,
    List.mem_range, hdata, or_assoc, eq_comm (b := importName p), hlocal, hparameter]

theorem not_mem_bound_k
    {x : Site}
    (htag : tagLocals s x = [])
    (ref : Mention) :
    "k" ∉ bound s x ref := by
  simp only [bound, locals, htag, List.nil_append, List.mem_append, List.mem_cons, List.mem_map]
  rintro ((hdata | ⟨m, -, hm⟩) | ⟨n, -, hn⟩)
  · exact absurd hdata (by decide)
  · have htext := toList_localName m
    rw [hm] at htext
    cases htext
  · have htext := toList_parameter n
    rw [hn] at htext
    cases htext

end Bound

section Modules

/-- Simple namespaces have distinct pieces. -/
theorem eq_of_pieces
    {p q : Package}
    (hwp : p.ns.WellFormed)
    (hwq : q.ns.WellFormed)
    (hp : p.ns.IsSimple)
    (hq : q.ns.IsSimple)
    (h : pieces p = pieces q) :
    p.ns = q.ns := by
  have hpieces : ∀ {p : Package}, p.ns.IsSimple → pieces p =
      p.ns.parts.map String.toList ++ p.ns.version.toList.flatMap (·.toList.splitOn '_') := by
    intro p hsimple
    have hparts : p.ns.parts.flatMap (·.toList.splitOn '_') = p.ns.parts.map String.toList := by
      rw [List.map_eq_flatMap]
      exact List.flatMap_congr fun part hpart =>
        List.splitOn_eq_singleton (hsimple.parts part hpart)
    rw [pieces, segments_eq_append, List.flatMap_append, hparts]
  have hne : ∀ {p : Package}, p.ns.WellFormed →
      ∀ piece ∈ p.ns.parts.map String.toList, piece ≠ [] := by
    intro p hwf piece hpiece
    obtain ⟨part, hpart, rfl⟩ := List.mem_map.mp hpiece
    obtain ⟨c, cs, heq, -⟩ := PackageName.exists_cons_of_isPart (hwf.parts part hpart)
    simp [heq]
  rw [hpieces hp, hpieces hq] at h
  obtain ⟨hparts, hversions⟩ := Swift.append_eq_append_of_nonempty (hne hwp) (hne hwq)
    (Swift.splitOn_version hp) (Swift.splitOn_version hq) h
  have hinjective : Function.Injective String.toList := fun _ _ => String.toList_inj.mp
  calc p.ns = ⟨p.ns.parts, p.ns.version⟩ := rfl
    _ = ⟨q.ns.parts, q.ns.version⟩ := by
      rw [hinjective.list_map hparts, Swift.eq_of_splitOn_version hversions]
    _ = q.ns := rfl

variable {s : Schema}
variable (hfit : s.NamespacesFit)
variable (decls : List DeclId)

/-- The names under which a module imports packages. -/
def importNames
    (s : Schema)
    (decls : List DeclId) :
    List String :=
  (imports s decls).map fun q => importName (s.package q)

theorem index_lt_of_mem_imports
    {decls : List DeclId}
    {q : Nat}
    (h : q ∈ imports s decls) :
    q < s.packages.length :=
  List.mem_range.mp (List.mem_filter.mp h).1

include hfit

/-- A module imports packages under distinct names when their namespaces have distinct pieces. -/
theorem nodup_importNames_iff :
    (importNames s decls).Nodup ↔
      (imports s decls).Pairwise fun p q => pieces (s.package p) ≠ pieces (s.package q) := by
  have hname : ∀ {p q}, p ∈ imports s decls → q ∈ imports s decls →
      (importName (s.package p) = importName (s.package q) ↔
        pieces (s.package p) = pieces (s.package q)) :=
    fun hp hq => importName_eq_iff (hfit.wellFormed_package (index_lt_of_mem_imports hp))
      (hfit.wellFormed_package (index_lt_of_mem_imports hq))
  rw [importNames, List.Nodup, List.pairwise_map]
  constructor
  · exact fun h => h.imp_of_mem fun hp hq hne heq => hne ((hname hp hq).mpr heq)
  · exact fun h => h.imp_of_mem fun hp hq hne heq => hne ((hname hp hq).mp heq)

/-- Simple namespaces are imported under distinct names. -/
theorem nodup_importNames_of_isSimple
    (hsimple : ∀ p ∈ s.packages, p.ns.IsSimple) :
    (importNames s decls).Nodup := by
  have hnodup : (imports s decls).Nodup := List.nodup_range.filter _
  rw [nodup_importNames_iff hfit]
  refine List.Pairwise.imp_of_mem (fun {p q} hp hq hne heq => hne ?_) hnodup
  have hp := index_lt_of_mem_imports hp
  have hq := index_lt_of_mem_imports hq
  exact hfit.eq_of_ns hp hq (eq_of_pieces (hfit.wellFormed_package hp) (hfit.wellFormed_package hq)
    (hsimple _ (s.package_mem hp)) (hsimple _ (s.package_mem hq)) heq)

end Modules

end JavaScript

section Resolved

open JavaScript

/-- When the names of imports are clear in the modules of files that resolve.  A module imports
packages under distinct names exactly when no two of their namespaces have the same pieces between
dots and underscores; parts without underscores and versions in full are enough.  Where a class
refers to another package, something bound around the reference takes the name of the import exactly
when the package is named like the variable of the document or a parameter around the reference, or
its namespace is joined to the variable of a property; and the parameter of functions that read keys
is bound around nothing but the key. -/
theorem resolve_imports
    {options : ResolveOptions}
    {files : List SourceFile}
    {r : Resolved}
    (h : resolve options files = .ok r)
    (hnames : ∀ f ∈ files, f.identity.name.IsValid)
    (emitOptions : EmitOptions) :
    (∀ package, (importNames r.schema (moduleDecls r.schema emitOptions package)).Nodup ↔
        (imports r.schema (moduleDecls r.schema emitOptions package)).Pairwise fun p q =>
          pieces (r.schema.package p) ≠ pieces (r.schema.package q)) ∧
      (options.scheme = .underscored →
        (∀ f ∈ files, ∀ part ∈ f.identity.name.parts, '_' ∉ part.toList) →
        ∀ package, (importNames r.schema (moduleDecls r.schema emitOptions package)).Nodup) ∧
      (∀ x ∈ classes r.schema emitOptions javascript, ∀ ref ∈ JavaScript.references r.schema x,
        ref.decl.package ≠ x.place.package →
          importName (r.schema.package ref.decl.package) ∈
              importNames r.schema (moduleDecls r.schema emitOptions x.place.package) ∧
            "k" ∉ bound r.schema x ref ∧
            (importName (r.schema.package ref.decl.package) ∈ bound r.schema x ref ↔
              (r.schema.package ref.decl.package).ns = ⟨["data"], none⟩ ∨
                (∃ m ∈ JavaScript.properties (x.fields r.schema),
                  String.intercalate "_" (JavaScript.segments
                    (r.schema.package ref.decl.package)) = JavaScript.localName m) ∨
                ∃ n < ref.depth,
                  (r.schema.package ref.decl.package).ns = ⟨[parameter n], none⟩)) ∧
      ∀ name key, JavaScript.decodeKey name key = "(k) => k" ∨
        ∃ p, JavaScript.decodeKey name key =
          s!"(k) => _integerKey({name}, k, {integerBounds p})" := by
  have hresolved := Resolve.resolvedFrom_of_resolve h
  have hs : r.schema.Linked := linked_of_resolvedFrom hresolved
  have hfit := Resolve.namespacesFit_of_resolve h hnames
  refine ⟨fun package => nodup_importNames_iff hfit _, fun hscheme hplain package => ?_,
    fun x hx ref href hne => ?_, fun name key => ?_⟩
  · exact nodup_importNames_of_isSimple hfit _ (Resolve.isSimple_of_underscored h hscheme hplain)
  · have hsite := (mem_classes.mp hx).1
    have hdecl := JavaScript.mem_ids_of_mem_references hresolved hsite href
    have htag := tagLocals_of_import href hne
    refine ⟨List.mem_map_of_mem (mem_imports hs hfit hx href hdecl hne), not_mem_bound_k htag ref,
      importName_mem_bound_iff htag (hfit.wellFormed_package ((r.schema.mem_ids_iff _).mp hdecl).1)⟩
  · unfold JavaScript.decodeKey
    split
    · split
      · exact .inr ⟨_, rfl⟩
      · exact .inl rfl
    · exact .inl rfl

end Resolved

end Target

namespace Sample

/-- A file with one type. -/
def leaf
    (file : Nat)
    (parts : List String) :
    SourceFile :=
  { file := file
    identity := ⟨⟨parts⟩, none⟩
    tree :=
      { doc := []
        imports := []
        decls := [⟨[], [], ⟨"A", default⟩, .type [], default⟩] } }

/-- A file that imports packages, with a type that has a list of each of their types. -/
def gathering
    (file : Nat)
    (packages : List PackageName) :
    SourceFile :=
  { file := file
    identity := ⟨⟨["main"]⟩, none⟩
    tree :=
      { doc := []
        imports := packages.map fun package => ⟨⟨package, default⟩, none, none, default⟩
        decls :=
          [⟨[], [], ⟨"C", default⟩,
            .type (packages.map fun package =>
              field package.last false (.array (.name ⟨some package.last, ["A"], default⟩))),
            default⟩] } }

/-- The package of a file with one type. -/
def leafPackage
    (index : Nat)
    (parts : List String) :
    Package :=
  { identity := ⟨⟨parts⟩, none⟩
    ns := ⟨parts, none⟩
    doc := []
    decls := [⟨⟨index, 0⟩, "A", [], none, [], .type [], default⟩]
    roots := [0] }

/-- The package of a file that imports others. -/
def gatheringPackage
    (index : Nat)
    (packages : List (String × Nat)) :
    Package :=
  { identity := ⟨⟨["main"]⟩, none⟩
    ns := ⟨["main"], none⟩
    doc := []
    decls :=
      [⟨⟨index, 0⟩, "C", [], none, [],
        .type (packages.map fun (name, target) =>
          ⟨name, name, .array (.decl ⟨target, 0⟩), false, [], default⟩),
        default⟩]
    roots := [0] }

/-- A package and one that imports it. -/
def gatheredSchema : Schema :=
  ⟨[leafPackage 0 ["foo"], gatheringPackage 1 [("foo", 0)]]⟩

theorem resolve_gathered :
    resolve options [leaf 0 ["foo"], gathering 1 [⟨["foo"]⟩]] = .ok ⟨gatheredSchema, []⟩ := by
  with_unfolding_all rfl

/-- Two packages with the same pieces, and one that imports both. -/
def confusedSchema : Schema :=
  ⟨[leafPackage 0 ["foo", "bar"], leafPackage 1 ["foo_bar"],
    gatheringPackage 2 [("bar", 0), ("foo_bar", 1)]]⟩

theorem resolve_confused :
    resolve options [leaf 0 ["foo", "bar"], leaf 1 ["foo_bar"],
      gathering 2 [⟨["foo", "bar"]⟩, ⟨["foo_bar"]⟩]] = .ok ⟨confusedSchema, []⟩ := by
  with_unfolding_all rfl

end Sample

namespace Target

open JavaScript

/-- A list of types of another package, read inside one function. -/
theorem resolve_imports_gathered :
    resolve Sample.options [Sample.leaf 0 ["foo"], Sample.gathering 1 [⟨["foo"]⟩]] =
        .ok ⟨Sample.gatheredSchema, []⟩ ∧
      importNames Sample.gatheredSchema
        (moduleDecls Sample.gatheredSchema Sample.everything 1) = ["foo"] ∧
      (importNames Sample.gatheredSchema
        (moduleDecls Sample.gatheredSchema Sample.everything 1)).Nodup ∧
      bound Sample.gatheredSchema (.decl ⟨1, 0⟩) ⟨⟨0, 0⟩, 1⟩ = ["data", "v_foo", "v0"] ∧
      importName (Sample.gatheredSchema.package 0) ∉
        bound Sample.gatheredSchema (.decl ⟨1, 0⟩) ⟨⟨0, 0⟩, 1⟩ := by
  have hvalid : ∀ f ∈ [Sample.leaf 0 ["foo"], Sample.gathering 1 [⟨["foo"]⟩]],
      f.identity.name.IsValid := by
    intro f hf
    rcases List.mem_cons.mp hf with rfl | hf
    · exact ⟨"foo", by decide +kernel⟩
    · rw [List.mem_singleton.mp hf]
      exact ⟨"main", by decide +kernel⟩
  have hwritten : Emit.written Sample.gatheredSchema Sample.everything javascript =
      [⟨0, 0⟩, ⟨1, 0⟩] := by
    decide +kernel
  have hclass : .decl ⟨1, 0⟩ ∈ classes Sample.gatheredSchema Sample.everything javascript := by
    refine mem_classes.mpr ⟨(mem_sites_decl _).mpr (by decide), ?_⟩
    rw [hwritten]
    decide
  have hbound :
      bound Sample.gatheredSchema (.decl ⟨1, 0⟩) ⟨⟨0, 0⟩, 1⟩ = ["data", "v_foo", "v0"] := by
    decide +kernel
  obtain ⟨-, hnodup, hclear, -⟩ :=
    resolve_imports Sample.resolve_gathered hvalid Sample.everything
  obtain ⟨-, -, hiff⟩ := hclear _ hclass ⟨⟨0, 0⟩, 1⟩ (List.mem_singleton_self _) (by decide)
  refine ⟨Sample.resolve_gathered, by decide +kernel, hnodup rfl (by decide) 1, hbound, ?_⟩
  rw [hiff]
  decide +kernel

/-- Two packages whose names are joined alike are imported under one name. -/
theorem exists_shared_import :
    resolve Sample.options [Sample.leaf 0 ["foo", "bar"], Sample.leaf 1 ["foo_bar"],
        Sample.gathering 2 [⟨["foo", "bar"]⟩, ⟨["foo_bar"]⟩]] = .ok ⟨Sample.confusedSchema, []⟩ ∧
      importNames Sample.confusedSchema
          (moduleDecls Sample.confusedSchema Sample.everything 2) = ["foo_bar", "foo_bar"] ∧
      ¬(importNames Sample.confusedSchema
          (moduleDecls Sample.confusedSchema Sample.everything 2)).Nodup := by
  have hnames : importNames Sample.confusedSchema
      (moduleDecls Sample.confusedSchema Sample.everything 2) = ["foo_bar", "foo_bar"] := by
    decide +kernel
  refine ⟨Sample.resolve_confused, hnames, ?_⟩
  rw [hnames]
  decide

end Target
end Schemata
