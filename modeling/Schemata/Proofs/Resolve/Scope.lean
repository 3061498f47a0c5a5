import Schemata.Proofs.Resolve.Assembly
import Schemata.Proofs.Resolve.Path

/-!
# What names mean

The meaning of a name is defined here on the files alone, without tables and
indices.  A declaration is known by its package and its path, the names on the
way to it; `declared` lists the declarations of a package that count, which are
all but those that repeat the name of an earlier sibling.

A scope is the beginning of a path: the path of a declaration stands for what
is directly inside it, and the empty path for the outermost declarations.  A
path can be walked from a scope when the two together are the path of a
declaration.  So a name used in the declaration with the path `here` means the
declaration at `outer ++ path`, where `outer` is the longest beginning of `here`
from which the whole path can be walked.  A qualified name means the declaration
with the path in the package that the import selects.

**Result.** `resolve?_eq_some_iff`: looking names up in tables finds what they
mean.
-/

namespace Schemata

/-- The declarations that count among siblings and all that they hold, each with its path.  A
declaration with the name of an earlier sibling is left out with all that it holds; `above` is the
path of the declaration around, and `seen` are the names of earlier siblings. -/
def Tree.listing
    (above seen : List String) :
    List Tree.Decl → List (List String × Tree.Decl)
  | [] => []
  | d :: rest =>
      if d.name.value ∈ seen then listing above seen rest
      else
        (above ++ [d.name.value], d) ::
          (listing (above ++ [d.name.value]) [] d.body.nested ++
            listing above (seen ++ [d.name.value]) rest)
termination_by decls => sizeOf decls
decreasing_by
  · simp only [List.cons.sizeOf_spec]
    omega
  · have hnested := Tree.Decl.sizeOf_nested_lt d
    simp only [List.cons.sizeOf_spec]
    omega
  · simp only [List.cons.sizeOf_spec]
    omega

namespace Reference

section Meaning

variable (files : List SourceFile)

/-- The declarations of a package, each with its path. -/
def declared
    (package : Nat) :
    List (List String × Tree.Decl) :=
  match files[package]? with
  | some f => Tree.listing [] [] f.tree.decls
  | none => []

/-- A declaration of the package has the path. -/
def IsPath
    (package : Nat)
    (path : List String) : Prop :=
  ∃ d, (path, d) ∈ declared files package

/-- The package that a qualifier stands for: what the first import under this name selects that
selects anything. -/
def target?
    (package : Nat)
    (qualifier : String) :
    Option Nat :=
  (files[package]?).bind fun f =>
    f.tree.imports.findSome? fun i =>
      if i.localName = qualifier then (selectImport (files.map (·.identity)) i).toOption
      else none

/-- What a name means inside the declaration of a package with the path `here`: the package and the
path of a declaration. -/
inductive Denotes
    (package : Nat)
    (here : List String)
    (name : TypeName) :
    Nat → List String → Prop
  | nearest
      {outer : List String}
      (hqualifier : name.qualifier = none)
      (hpath : name.path ≠ [])
      (houter : Nearest (fun scope => IsPath files package (scope ++ name.path)) here outer) :
      Denotes package here name package (outer ++ name.path)
  | imported
      {qualifier : String}
      {target : Nat}
      (hqualifier : name.qualifier = some qualifier)
      (htarget : target? files package qualifier = some target)
      (hpath : IsPath files target name.path) :
      Denotes package here name target name.path

/-- The name means a declaration. -/
def HasMeaning
    (package : Nat)
    (here : List String)
    (name : TypeName) : Prop :=
  ∃ target path, Denotes files package here name target path

variable (package : Nat)
variable (here : List String)
variable (name : TypeName)

/-- A test for the meaning of a name. -/
def hasMeaning :
    Bool :=
  match name.qualifier with
  | none =>
      !name.path.isEmpty &&
        here.inits.any fun scope =>
          ((declared files package).map Prod.fst).contains (scope ++ name.path)
  | some qualifier =>
      (target? files package qualifier).any fun target =>
        ((declared files target).map Prod.fst).contains name.path

theorem contains_declared_iff
    (path : List String) :
    ((declared files package).map Prod.fst).contains path = true ↔ IsPath files package path := by
  simp [IsPath]

theorem hasMeaning_iff :
    hasMeaning files package here name = true ↔ HasMeaning files package here name := by
  unfold hasMeaning HasMeaning
  cases hqualifier : name.qualifier with
  | none =>
      simp only [Bool.and_eq_true, Bool.not_eq_true', List.isEmpty_eq_false_iff, List.any_eq_true,
        List.mem_inits, contains_declared_iff]
      rw [← exists_nearest_iff (P := fun scope => IsPath files package (scope ++ name.path))]
      constructor
      · rintro ⟨hpath, outer, houter⟩
        exact ⟨package, _, Denotes.nearest hqualifier hpath houter⟩
      · rintro ⟨target, path, hdenotes⟩
        cases hdenotes with
        | nearest hnone hpath houter =>
            exact ⟨hpath, _, houter⟩
        | imported hsome htarget hpath =>
            rw [hqualifier] at hsome
            cases hsome
  | some qualifier =>
      simp only [Option.any_eq_true, contains_declared_iff]
      constructor
      · rintro ⟨target, htarget, hpath⟩
        exact ⟨target, name.path, Denotes.imported hqualifier htarget hpath⟩
      · rintro ⟨target, path, hdenotes⟩
        cases hdenotes with
        | nearest hnone hpath houter =>
            rw [hqualifier] at hnone
            cases hnone
        | imported hsome htarget hpath =>
            obtain rfl := Option.some.inj (hqualifier.symm.trans hsome)
            exact ⟨target, htarget, hpath⟩

instance :
    Decidable (HasMeaning files package here name) :=
  decidable_of_iff _ (hasMeaning_iff files package here name)

end Meaning

section Listing

/-- The listing of a file shows the entries of its table in their order. -/
theorem listing_eq_map
    {t : Table}
    (hforest : t.Forest)
    (next : Nat)
    (parent : Option Nat)
    (seen : Seen)
    (decls : List Tree.Decl)
    (above : List String)
    (hholds : t.HoldsFrom next (register next parent seen decls).value.2)
    (habove : ∀ i e, t.entry? i = some e → e.parent = parent →
      t.Leads (above ++ [e.name]) i) :
    Tree.listing above (seen.map Prod.fst) decls =
      ((register next parent seen decls).value.2.zipIdx next).map fun x =>
        (t.pathAt x.2, x.1.decl) := by
  induction next, parent, seen, decls using register.induct generalizing above with
  | case1 next parent seen =>
      rw [Tree.listing, register]
      rfl
  | case2 next parent seen d rest previous hseen ih =>
      have hmem : d.name.value ∈ seen.map Prod.fst := by
        by_contra hnot
        have hnone := (lookup_eq_none_iff_notMem seen d.name.value).mpr hnot
        rw [Seen.place?, hnone] at hseen
        cases hseen
      rw [register_cons_seen hseen] at hholds ⊢
      rw [Tree.listing, if_pos hmem]
      exact ih above hholds habove
  | case3 next parent seen d rest hnew ihInner ihOuter =>
      have hnot : d.name.value ∉ seen.map Prod.fst :=
        (lookup_eq_none_iff_notMem seen d.name.value).mp hnew
      rw [register_cons_new hnew] at hholds ⊢
      obtain ⟨hhead, houter⟩ := Table.holdsFrom_append.mp hholds
      obtain ⟨hentry, hinner⟩ := Table.holdsFrom_cons.mp hhead
      rw [List.length_cons, Nat.add_comm _ 1, ← Nat.add_assoc] at houter
      have hleads : t.Leads (above ++ [d.name.value]) next := habove next _ hentry rfl
      have hchildren := ihInner (above ++ [d.name.value]) hinner
        (fun i e he hparent => Table.Leads.child hleads he hparent)
      have hsiblings := ihOuter (innerOf next d).value.2 above houter habove
      rw [List.map_append, List.map_cons, List.map_nil] at hsiblings
      rw [Tree.listing, if_neg hnot, hsiblings]
      rw [List.map_nil] at hchildren
      rw [hchildren, ← Table.Leads.pathAt hforest hleads]
      simp only [List.cons_append, List.zipIdx_cons, List.map_cons, List.zipIdx_append,
        List.map_append]
      rfl

variable (files : List SourceFile)

theorem listing_file
    (f : SourceFile) :
    Tree.listing [] [] f.tree.decls =
      (Resolve.tableOf files f).entries.zipIdx.map fun x =>
        ((Resolve.tableOf files f).pathAt x.2, x.1.decl) := by
  have hdecls := Resolve.tableOf_ofDecls files f
  have hforest := Resolve.tableOf_forest files f
  have h := listing_eq_map hforest 0 none [] f.tree.decls [] hdecls.holdsFrom
    (fun i e he hparent => Table.Leads.root he hparent)
  rw [← hdecls.2] at h
  exact h

/-- The declarations of a package are those of the entries of its table. -/
theorem mem_declared_iff
    {package : Nat}
    {f : SourceFile}
    (hf : files[package]? = some f)
    (path : List String)
    (d : Tree.Decl) :
    (path, d) ∈ declared files package ↔
      ∃ i e, Table.entry? (Resolve.tableOf files f) i = some e ∧ e.decl = d ∧
        (Resolve.tableOf files f).Leads path i := by
  have hforest := Resolve.tableOf_forest files f
  unfold declared
  simp only [hf, listing_file files f, List.mem_map, Prod.mk.injEq]
  constructor
  · rintro ⟨⟨e, i⟩, hmem, rfl, rfl⟩
    have he := List.mem_zipIdx_iff_getElem?.mp hmem
    exact ⟨i, e, he, rfl, hforest.leads_pathAt he⟩
  · rintro ⟨i, e, he, rfl, hleads⟩
    exact ⟨(e, i), List.mem_zipIdx_iff_getElem?.mpr he, hleads.pathAt hforest, rfl⟩

theorem isPath_iff
    {package : Nat}
    {f : SourceFile}
    (hf : files[package]? = some f)
    (path : List String) :
    IsPath files package path ↔ ∃ i, (Resolve.tableOf files f).Leads path i := by
  unfold IsPath
  constructor
  · rintro ⟨d, hd⟩
    obtain ⟨i, e, -, -, hleads⟩ := (mem_declared_iff files hf path d).mp hd
    exact ⟨i, hleads⟩
  · rintro ⟨i, hleads⟩
    obtain ⟨e, he⟩ := hleads.exists_entry
    exact ⟨e.decl, (mem_declared_iff files hf path e.decl).mpr ⟨i, e, he, rfl, hleads⟩⟩

theorem exists_file_of_isPath
    {package : Nat}
    {path : List String}
    (h : IsPath files package path) :
    ∃ f, files[package]? = some f := by
  obtain ⟨d, hd⟩ := h
  unfold declared at hd
  cases hf : files[package]? with
  | none =>
      simp [hf] at hd
  | some f =>
      exact ⟨f, rfl⟩

end Listing

section Imports

/-- The import that is found under a name is the first one that selects a package, after those that
are known already. -/
theorem find?_resolveImports
    (installed : List Identity)
    (known : List ImportEntry)
    (imports : List Tree.Import)
    (qualifier : String) :
    ((resolveImports installed known imports).value.find? (·.name == qualifier)).map
        (·.package) =
      ((known.find? (·.name == qualifier)).map (·.package)).or
        (imports.findSome? fun i =>
          if i.localName = qualifier then (selectImport installed i).toOption else none) := by
  induction imports generalizing known with
  | nil =>
      simp [resolveImports]
  | cons i imports ih =>
      rw [findSome?_cons_eq_or]
      rw [resolveImports]
      cases hselect : selectImport installed i with
      | error e =>
          have hnone : (Except.error e : Except ResolveError Nat).toOption = none := rfl
          simp [ih, hnone]
      | ok target =>
          have hsome : (Except.ok target : Except ResolveError Nat).toOption = some target := rfl
          cases hknown : known.find? (·.name == i.localName) with
          | some earlier =>
              simp only [Checked.value_bind, ih, hsome]
              by_cases hname : i.localName = qualifier
              · rw [← hname, hknown]
                simp
              · simp [hname]
          | none =>
              simp only [ih, List.find?_append, hsome]
              by_cases hname : i.localName = qualifier
              · rw [← hname, hknown]
                simp
              · simp [hname]

theorem find?_imports
    (files : List SourceFile)
    {package : Nat}
    {f : SourceFile}
    (hf : files[package]? = some f)
    (qualifier : String) :
    ((Resolve.tableOf files f).imports.find? (·.name == qualifier)).map (·.package) =
      target? files package qualifier := by
  rw [Resolve.tableOf, find?_resolveImports]
  simp [target?, hf]

end Imports

section Lookup

variable (files : List SourceFile)
variable {package : Nat}
variable {f : SourceFile}
variable (hf : files[package]? = some f)

include hf

theorem resolve?_qualified
    {name : TypeName}
    {qualifier : String}
    (hqualifier : name.qualifier = some qualifier)
    (index : Nat)
    (id : DeclId) :
    Table.resolve? (files.map (Resolve.tableOf files)) package index name = some id ↔
      target? files package qualifier = some id.package ∧
        ∃ g, files[id.package]? = some g ∧
          (Resolve.tableOf files g).Leads name.path id.index := by
  have htarget := find?_imports files hf qualifier
  simp only [Table.resolve?, List.getElem?_map, hf, Option.map_some, hqualifier]
  cases hfind : (Resolve.tableOf files f).imports.find? (·.name == qualifier) with
  | none =>
      rw [hfind, Option.map_none] at htarget
      simp [← htarget]
  | some found =>
      rw [hfind, Option.map_some] at htarget
      rw [← htarget]
      simp only [Option.some.injEq]
      cases hg : files[found.package]? with
      | none =>
          simp only [Option.map_none, reduceCtorEq, false_iff, not_and]
          rintro hpackage ⟨g, hg', -⟩
          rw [← hpackage, hg] at hg'
          cases hg'
      | some g =>
          have hforest := Resolve.tableOf_forest files g
          have hwalk := hforest.walkFrom_eq_some_iff hforest.scope_roots name.path
          simp only [Option.map_some, Option.map_eq_some_iff, hwalk, List.nil_append]
          constructor
          · rintro ⟨i, ⟨-, hleads⟩, rfl⟩
            exact ⟨rfl, g, hg, hleads⟩
          · rintro ⟨hpackage, g', hg', hleads⟩
            rw [← hpackage, hg, Option.some.injEq] at hg'
            subst hg'
            refine ⟨id.index, ⟨hleads.ne_nil, hleads⟩, ?_⟩
            rw [hpackage]

theorem resolve?_unqualified
    {name : TypeName}
    (hqualifier : name.qualifier = none)
    {here : List String}
    {index : Nat}
    (hhere : (Resolve.tableOf files f).Leads here index)
    (id : DeclId) :
    Table.resolve? (files.map (Resolve.tableOf files)) package index name = some id ↔
      id.package = package ∧ name.path ≠ [] ∧
        ∃ outer, Nearest (fun scope => IsPath files package (scope ++ name.path)) here outer ∧
          (Resolve.tableOf files f).Leads (outer ++ name.path) id.index := by
  have hforest := Resolve.tableOf_forest files f
  simp only [Table.resolve?, List.getElem?_map, hf, Option.map_some, hqualifier,
    Option.map_eq_some_iff, isPath_iff files hf]
  by_cases hpath : name.path = []
  · have hnone : ((Resolve.tableOf files f).scopes index).findSome?
        ((Resolve.tableOf files f).walkFrom · []) = none :=
      List.findSome?_eq_none_iff.mpr fun siblings _ => rfl
    simp [hpath, hnone]
  · simp only [hforest.findSome?_scopes_eq_some_iff hhere hpath, ne_eq, hpath, not_false_eq_true,
      true_and]
    constructor
    · rintro ⟨i, houter, rfl⟩
      exact ⟨rfl, houter⟩
    · rintro ⟨hpackage, houter⟩
      refine ⟨id.index, houter, ?_⟩
      rw [← hpackage]

/-- Looking a name up finds the declaration that the name means. -/
theorem resolve?_eq_some_iff
    (name : TypeName)
    {here : List String}
    {index : Nat}
    (hhere : (Resolve.tableOf files f).Leads here index)
    (id : DeclId) :
    Table.resolve? (files.map (Resolve.tableOf files)) package index name = some id ↔
      ∃ path g, Denotes files package here name id.package path ∧
        files[id.package]? = some g ∧ (Resolve.tableOf files g).Leads path id.index := by
  cases hqualifier : name.qualifier with
  | some qualifier =>
      rw [resolve?_qualified files hf hqualifier index id]
      constructor
      · rintro ⟨htarget, g, hg, hleads⟩
        have hpath := (isPath_iff files hg name.path).mpr ⟨id.index, hleads⟩
        exact ⟨name.path, g, Denotes.imported hqualifier htarget hpath, hg, hleads⟩
      · rintro ⟨path, g, hdenotes, hg, hleads⟩
        obtain ⟨target, i⟩ := id
        cases hdenotes with
        | nearest hnone hpath houter =>
            rw [hqualifier] at hnone
            cases hnone
        | imported hsome htarget hpath =>
            obtain rfl := Option.some.inj (hqualifier.symm.trans hsome)
            exact ⟨htarget, g, hg, hleads⟩
  | none =>
      rw [resolve?_unqualified files hf hqualifier hhere id]
      constructor
      · rintro ⟨hpackage, hpath, outer, houter, hleads⟩
        refine ⟨outer ++ name.path, f, ?_, hpackage ▸ hf, hleads⟩
        rw [hpackage]
        exact Denotes.nearest hqualifier hpath houter
      · rintro ⟨path, g, hdenotes, hg, hleads⟩
        obtain ⟨target, i⟩ := id
        cases hdenotes with
        | nearest hnone hpath houter =>
            obtain rfl : f = g := Option.some.inj (hf.symm.trans hg)
            exact ⟨rfl, hpath, _, houter, hleads⟩
        | imported hsome htarget hpath =>
            rw [hqualifier] at hsome
            cases hsome

/-- A name that is not found means nothing. -/
theorem resolve?_eq_none_iff
    (name : TypeName)
    {here : List String}
    {index : Nat}
    (hhere : (Resolve.tableOf files f).Leads here index) :
    Table.resolve? (files.map (Resolve.tableOf files)) package index name = none ↔
      ¬ HasMeaning files package here name := by
  rw [← not_iff_not, not_not, ← ne_eq, Option.ne_none_iff_exists']
  simp only [resolve?_eq_some_iff files hf name hhere]
  constructor
  · rintro ⟨id, path, g, hdenotes, -⟩
    exact ⟨id.package, path, hdenotes⟩
  · rintro ⟨target, path, hdenotes⟩
    have hpath : IsPath files target path := by
      cases hdenotes with
      | nearest hqualifier hpath houter =>
          exact houter.2.1
      | imported hqualifier htarget hpath =>
          exact hpath
    obtain ⟨g, hg⟩ := exists_file_of_isPath files hpath
    obtain ⟨i, hleads⟩ := (isPath_iff files hg path).mp hpath
    exact ⟨⟨target, i⟩, path, g, hdenotes, hg, hleads⟩

end Lookup

end Reference
end Schemata
