import Schemata.Proofs.Schema.Nesting
import Schemata.Proofs.Target.JavaScriptMention
import Schemata.Proofs.Target.Scope

/-!
# JavaScript: what the names in a class stand for

A field is read in functions inside a method of a class inside a module.  The
functions bind their parameters, the method binds its variables, and a class
binds its own name inside itself.  The module binds what it imports, its
outermost classes and its functions.

**Results.**
* `reads_local_iff`: when a reference within the package leads to the class of
  the root of what it refers to.
* `reads_import_iff`: when a reference to another package leads to its module.
-/

namespace Schemata
namespace Target
namespace JavaScript

section Definitions

/-- The name of the function that a line opens. -/
def functionName? : CodeItem → Option String
  | .line text =>
      ("function ".toList.isPrefixOf? text.toList).map fun rest =>
        String.ofList (rest.takeWhile (· != '('))
  | .blank | .indented _ => none

/-- The functions that every module starts with. -/
def preludeNames : List String :=
  preludeCode.filterMap functionName?

variable (s : Schema)
variable (options : EmitOptions)

/-- The variable that holds the tag where an interface is read. -/
def tagLocals : Site → List String
  | .decl id =>
      match (s.decl id).body with
      | .interface body => if body.strategy = .untagged then [] else ["tag"]
      | _ => []
  | .case _ _ => []

/-- What is bound in the method that reads a type. -/
def locals
    (x : Site) :
    List String :=
  "data" :: (tagLocals s x ++ (properties (x.fields s)).map localName)

/-- The outermost declarations of the module of a package. -/
def moduleDecls
    (package : Nat) :
    List DeclId :=
  (Emit.bundle s options javascript (modulePath (s.package package))).decls

/-- What a module binds. -/
def moduleFrame
    (decls : List DeclId) :
    Frame :=
  (imports s decls).map (fun q => (importName (s.package q), .package q))
    ++ decls.map (fun d => (Site.ident .javascript s (.decl d), .type (.decl d)))
    ++ valueFrame preludeNames

/-- The frames around an expression in a class, inside so many functions. -/
def frames
    (x : Site)
    (depth : Nat) :
    List Frame :=
  [valueFrame ((List.range depth).map parameter),
   valueFrame (locals s x),
   [(x.ident .javascript s, .type x)],
   moduleFrame s (moduleDecls s options x.place.package)]

/-- What a printed reference begins with stands for this. -/
def Reads
    (x : Site)
    (ref : Mention)
    (m : Meaning) : Prop :=
  Means (firstSegment (classRef s x.place.package ref.decl)) m (frames s options x ref.depth)

/-- Nothing takes the name of an outermost declaration inside a class: neither the class nor
another outermost class of the module. -/
structure RootFree
    (x : Site)
    (root : DeclId) : Prop where
  written : root ∈ Emit.written s options javascript
  own : Naming.SameWords (x.name s) (s.decl root).name → x = .decl root
  others : ¬Naming.SameWords (x.name s) (s.decl root).name →
    ∀ d ∈ Emit.written s options javascript, d.package = root.package →
      Naming.SameWords (s.decl d).name (s.decl root).name → d = root

/-- Nothing takes the name under which a package is imported: neither a variable nor a parameter nor
another import. -/
structure ImportFree
    (x : Site)
    (ref : Mention) : Prop where
  locals : importName (s.package ref.decl.package) ∉ locals s x
  parameters : ∀ n < ref.depth, parameter n ≠ importName (s.package ref.decl.package)
  imports : ∀ q ∈ imports s (moduleDecls s options x.place.package),
    importName (s.package q) = importName (s.package ref.decl.package) → q = ref.decl.package

end Definitions

section Names

theorem isValueName_append
    {text : String}
    (h : IsValueName text)
    (after : String) :
    IsValueName (text ++ after) := by
  obtain ⟨c, cs, htext, hc⟩ := h
  exact ⟨c, cs ++ after.toList, by rw [String.toList_append, htext, List.cons_append], hc⟩

theorem isValueName_parameter
    (n : Nat) :
    IsValueName (parameter n) :=
  isValueName_append ⟨'v', [], rfl, .inl rfl⟩ _

theorem isValueName_of_mem_locals
    {s : Schema}
    {x : Site}
    {name : String}
    (h : name ∈ locals s x) :
    IsValueName name := by
  rcases List.mem_cons.mp h with rfl | h
  · exact ⟨'d', _, rfl, .inl rfl⟩
  rcases List.mem_append.mp h with h | h
  · have htag : name = "tag" := by
      unfold tagLocals at h
      split at h
      · split at h
        · split at h
          · cases h
          · exact List.mem_singleton.mp h
        · cases h
      · cases h
    exact ⟨'t', _, by rw [htag]; rfl, .inl rfl⟩
  · obtain ⟨m, -, rfl⟩ := List.mem_map.mp h
    exact isValueName_append ⟨'v', ['_'], rfl, .inl rfl⟩ _

theorem preludeNames_eq :
    preludeNames = ["_fail", "_present", "_put", "_object", "_string", "_boolean", "_number",
      "_integer", "_integerKey", "_array", "_map", "_encodeMap", "_tuple", "_equals", "_hash"] := by
  decide +kernel

theorem head?_of_mem_preludeNames
    {name : String}
    (h : name ∈ preludeNames) :
    name.toList.head? = some '_' := by
  have hmarked : (preludeNames.all fun name => name.toList.head? == some '_') = true := by
    rw [preludeNames_eq]
    decide +kernel
  exact beq_iff_eq.mp (List.all_eq_true.mp hmarked name h)

theorem isValueName_of_mem_preludeNames
    {name : String}
    (h : name ∈ preludeNames) :
    IsValueName name := by
  obtain ⟨cs, hcs⟩ := List.head?_eq_some_iff.mp (head?_of_mem_preludeNames h)
  exact ⟨'_', cs, hcs, .inr rfl⟩

variable {p : Package}
variable (hp : p.ns.WellFormed)

include hp

/-- A package is imported under a name that begins with a small letter, or a marked word. -/
theorem importName_cases :
    (∃ c cs, (importName p).toList = c :: cs ∧ c.isLower = true) ∨
      ∃ word ∈ Naming.javascriptWords, importName p = "_" ++ word := by
  obtain ⟨part, parts, hparts⟩ := List.exists_cons_of_ne_nil hp.ne_nil
  obtain ⟨c, cs, hpart, hlower, -⟩ :=
    PackageName.exists_cons_of_isPart (hp.parts part (hparts ▸ List.mem_cons_self))
  unfold importName Naming.Language.spell
  split
  next hreserved => exact .inr ⟨_, List.contains_iff_mem.mp hreserved, rfl⟩
  next =>
    obtain ⟨after, htext, -⟩ := toList_intercalate_cons "_" part (parts ++ p.ns.version.toList)
    refine .inl ⟨c, cs ++ after, ?_, hlower⟩
    rw [segments, Emit.namespaceSegments, hparts, List.map_cons, List.cons_append]
    simpa [hpart] using htext

theorem isValueName_importName :
    IsValueName (importName p) := by
  rcases importName_cases hp with ⟨c, cs, htext, hlower⟩ | ⟨word, -, heq⟩
  · exact ⟨c, cs, htext, .inl hlower⟩
  · exact ⟨'_', word.toList, by rw [heq, String.toList_append]; rfl, .inr rfl⟩

theorem importName_not_mem_preludeNames :
    importName p ∉ preludeNames := by
  have hwords : (Naming.javascriptWords.all fun word =>
      !preludeNames.contains ("_" ++ word)) = true := by
    rw [preludeNames_eq]
    decide +kernel
  intro hmem
  rcases importName_cases hp with ⟨c, cs, htext, hlower⟩ | ⟨word, hword, heq⟩
  · have hhead := head?_of_mem_preludeNames hmem
    rw [htext, List.head?_cons, Option.some.injEq] at hhead
    rw [hhead] at hlower
    cases hlower
  · have hfree := List.all_eq_true.mp hwords word hword
    rw [← heq, Bool.not_eq_true', List.contains_eq_mem, decide_eq_false_iff_not] at hfree
    exact hfree hmem

theorem dot_not_mem_importName :
    '.' ∉ (importName p).toList :=
  (Naming.isIdentText_spell _ (Naming.isIdentText_intercalate
    (Emit.isIdentText_namespaceSegments_none hp))).dot_not_mem

end Names

section Module

variable {s : Schema}

/-- The module of a package has the outermost declarations of the package that are written. -/
theorem mem_moduleDecls
    (hs : s.Linked)
    (hfit : s.NamespacesFit)
    (options : EmitOptions)
    {id : DeclId}
    (hid : id ∈ s.ids)
    (d : DeclId) :
    d ∈ moduleDecls s options id.package ↔
      d ∈ Emit.written s options javascript ∧ d.package = id.package := by
  have hpath : ∀ d ∈ Emit.roots s options,
      (javascript.path s d = modulePath (s.package id.package) ↔ d.package = id.package) :=
    fun d hd => path_javascript_eq_iff hfit (Emit.mem_ids_of_mem_roots hs options hd) hid
  simp only [moduleDecls, Emit.bundle, Emit.written, Emit.writes, List.mem_filter,
    Bool.and_eq_true, beq_iff_eq]
  constructor
  · rintro ⟨hroot, hnone, heq⟩
    exact ⟨⟨hroot, hnone⟩, (hpath d hroot).mp heq⟩
  · rintro ⟨⟨hroot, hnone⟩, heq⟩
    exact ⟨hroot, hnone, (hpath d hroot).mpr heq⟩

/-- A module binds the name of a type to its outermost declarations only. -/
theorem mem_moduleFrame_typeIdent
    (hfit : s.NamespacesFit)
    (decls : List DeclId)
    (name : String)
    (m : Meaning) :
    (typeIdent name, m) ∈ moduleFrame s decls ↔
      ∃ d ∈ decls, Naming.SameWords (s.decl d).name name ∧ m = .type (.decl d) := by
  simp only [moduleFrame, List.mem_append, List.mem_map, Prod.mk.injEq]
  constructor
  · rintro ((⟨q, hq, hname, rfl⟩ | ⟨d, hd, hname, rfl⟩) | hprelude)
    · have hwf := hfit.wellFormed_package (List.mem_range.mp (List.mem_filter.mp hq).1)
      exact absurd hname.symm
        (typeIdent_ne_of_isValueName reservesValues_javascript (isValueName_importName hwf) name)
    · exact ⟨d, hd, (Emit.typeIdent_eq_iff _ _ _).mp hname, rfl⟩
    · exact absurd hprelude (typeIdent_not_mem_valueFrame reservesValues_javascript
        (fun _ => isValueName_of_mem_preludeNames) name m)
  · rintro ⟨d, hd, hsame, rfl⟩
    exact .inl (.inr ⟨d, hd, (Emit.typeIdent_eq_iff _ _ _).mpr hsame, rfl⟩)

/-- A module binds the name of an import to imported packages only. -/
theorem mem_moduleFrame_importName
    (decls : List DeclId)
    {p : Package}
    (hp : p.ns.WellFormed)
    (m : Meaning) :
    (importName p, m) ∈ moduleFrame s decls ↔
      ∃ q ∈ imports s decls, importName (s.package q) = importName p ∧ m = .package q := by
  simp only [moduleFrame, List.mem_append, List.mem_map, Prod.mk.injEq]
  constructor
  · rintro ((⟨q, hq, hname, rfl⟩ | ⟨d, hd, hname, rfl⟩) | hprelude)
    · exact ⟨q, hq, hname, rfl⟩
    · exact absurd hname (typeIdent_ne_of_isValueName reservesValues_javascript
        (isValueName_importName hp) _)
    · exact absurd (mem_valueFrame.mp hprelude).1 (importName_not_mem_preludeNames hp)
  · rintro ⟨q, hq, hname, rfl⟩
    exact .inl (.inl ⟨q, hq, hname, rfl⟩)

theorem firstSegment_classRef_local
    (hs : s.Linked)
    {home : Nat}
    {id : DeclId}
    (hid : id ∈ s.ids)
    (hpackage : id.package = home) :
    firstSegment (classRef s home id) = typeIdent (s.decl (s.rootOf id)).name := by
  obtain ⟨rest, hpath⟩ := hs.declPath_eq_cons hid
  rw [classRef, if_pos hpackage, classPath, hpath, List.map_cons]
  exact firstSegment_intercalate (Emit.isIdentText_typeIdent _ _).dot_not_mem _

theorem firstSegment_classRef_import
    (hfit : s.NamespacesFit)
    {home : Nat}
    {id : DeclId}
    (hid : id ∈ s.ids)
    (hne : id.package ≠ home) :
    firstSegment (classRef s home id) = importName (s.package id.package) := by
  have hwf := hfit.wellFormed_package ((s.mem_ids_iff id).mp hid).1
  refine firstSegment_of_append (dot_not_mem_importName hwf)
    (.inr ⟨(classPath s id).toList, rfl⟩) ?_
  simp only [classRef, if_neg hne, String.toList_append, List.append_assoc]
  rfl

end Module

section Reading

variable {s : Schema}
variable (hs : s.Linked)
variable (hfit : s.NamespacesFit)
variable {options : EmitOptions}
variable {x : Site}
variable (hx : x ∈ classes s options javascript)

/-- Inside a class, the name of a type is that of the class, or it is read in the module. -/
theorem means_frames_iff
    (depth : Nat)
    (name : String)
    (m : Meaning) :
    Means (typeIdent name) m (frames s options x depth) ↔
      (Naming.SameWords (x.name s) name → m = .type x) ∧
        (¬Naming.SameWords (x.name s) name →
          Means (typeIdent name) m [moduleFrame s (moduleDecls s options x.place.package)]) := by
  have hparameters : ∀ n, (typeIdent name, n) ∉ valueFrame ((List.range depth).map parameter) := by
    refine typeIdent_not_mem_valueFrame reservesValues_javascript (fun text htext => ?_) name
    obtain ⟨n, -, rfl⟩ := List.mem_map.mp htext
    exact isValueName_parameter n
  have hlocals : ∀ n, (typeIdent name, n) ∉ valueFrame (locals s x) :=
    typeIdent_not_mem_valueFrame reservesValues_javascript (fun _ => isValueName_of_mem_locals) name
  have hident : x.ident .javascript s = typeIdent name ↔ Naming.SameWords (x.name s) name :=
    Emit.typeIdent_eq_iff _ _ _
  rw [frames, means_cons_of_absent hparameters, means_cons_of_absent hlocals]
  by_cases hown : Naming.SameWords (x.name s) name
  · have hmem : (typeIdent name, Meaning.type x) ∈ [(x.ident .javascript s, Meaning.type x)] := by
      rw [hident.mpr hown]
      exact List.mem_singleton_self _
    rw [means_cons_of_mem hmem]
    constructor
    · intro h
      exact ⟨fun _ => (h _ hmem).symm, fun hne => absurd hown hne⟩
    · rintro ⟨hself, -⟩ n hn
      rw [(Prod.mk.inj (List.mem_singleton.mp hn)).2, hself hown]
  · have habsent : ∀ n, (typeIdent name, n) ∉ [(x.ident .javascript s, Meaning.type x)] := by
      intro n hn
      exact hown (hident.mp (Prod.mk.inj (List.mem_singleton.mp hn)).1.symm)
    rw [means_cons_of_absent habsent]
    exact ⟨fun h => ⟨fun hsame => absurd hsame hown, fun _ => h⟩, fun h => h.2 hown⟩

include hs hfit hx

/-- A reference within the package leads to the root of what it refers to exactly when nothing
takes the name of the root. -/
theorem reads_local_iff
    {ref : Mention}
    (hid : ref.decl ∈ s.ids)
    (hpackage : ref.decl.package = x.place.package) :
    Reads s options x ref (.type (.decl (s.rootOf ref.decl))) ↔
      RootFree s options x (s.rootOf ref.decl) := by
  obtain ⟨hsite, hwritten⟩ := mem_classes.mp hx
  have hdecls := mem_moduleDecls hs hfit options (place_mem_ids hsite)
  have hrootPackage : (s.rootOf ref.decl).package = x.place.package := hpackage
  have hrootRoot := hs.rootOf_rootOf hid
  rw [Reads, firstSegment_classRef_local hs hid hpackage, means_frames_iff, means_singleton_iff]
  generalize s.rootOf ref.decl = root at hrootPackage hrootRoot ⊢
  simp only [mem_moduleFrame_typeIdent hfit, hdecls]
  constructor
  · rintro ⟨hown, hmodule⟩
    have hself : Naming.SameWords (x.name s) (s.decl root).name → x = .decl root :=
      fun hsame => (Meaning.type.inj (hown hsame)).symm
    refine ⟨?_, hself, fun hne d hd hpackage hsame => ?_⟩
    · by_cases hsame : Naming.SameWords (x.name s) (s.decl root).name
      · rw [hself hsame, Site.place, hrootRoot] at hwritten
        exact hwritten
      · obtain ⟨⟨d, ⟨hd, -⟩, -, heq⟩, -⟩ := hmodule hsame
        obtain rfl : root = d := Site.decl.inj (Meaning.type.inj heq)
        exact hd
    · have honly := (hmodule hne).2 _ ⟨d, ⟨hd, hpackage.trans hrootPackage⟩, hsame, rfl⟩
      exact Site.decl.inj (Meaning.type.inj honly)
  · intro hfree
    refine ⟨fun hsame => by rw [hfree.own hsame], fun hne => ⟨?_, ?_⟩⟩
    · exact ⟨root, ⟨hfree.written, hrootPackage⟩, rfl, rfl⟩
    · rintro n ⟨d, ⟨hd, hpackage⟩, hsame, rfl⟩
      rw [hfree.others hne d hd (hpackage.trans hrootPackage.symm) hsame]

/-- A module imports the other packages that its classes refer to. -/
theorem mem_imports
    {ref : Mention}
    (href : ref ∈ references s x)
    (hid : ref.decl ∈ s.ids)
    (hne : ref.decl.package ≠ x.place.package) :
    ref.decl.package ∈ imports s (moduleDecls s options x.place.package) := by
  obtain ⟨hsite, hwritten⟩ := mem_classes.mp hx
  have hplace := place_mem_ids hsite
  have hroot : s.rootOf x.place ∈ moduleDecls s options x.place.package :=
    (mem_moduleDecls hs hfit options hplace _).mpr ⟨hwritten, rfl⟩
  have himports : ref.decl.package ∈ importsOf s x.place := by
    rcases List.mem_append.mp href with hfield | hown
    · obtain ⟨f, hf, hm⟩ := List.mem_flatMap.mp hfield
      refine List.mem_filter.mpr ⟨List.mem_map_of_mem ?_, bne_iff_ne.mpr hne⟩
      exact List.mem_flatMap.mpr
        ⟨f.type, type_mem_memberTypes hsite hf, mem_mentioned_of_mentions hm⟩
    · cases x with
      | decl id =>
          obtain ⟨c, -, rfl⟩ := List.mem_map.mp hown
          exact absurd rfl hne
      | case id c =>
          cases hown
  refine List.mem_filter.mpr ⟨List.mem_range.mpr ((s.mem_ids_iff _).mp hid).1, ?_⟩
  refine List.contains_iff_mem.mpr (List.mem_flatMap.mpr ⟨x.place, ?_, himports⟩)
  exact List.mem_flatMap.mpr ⟨s.rootOf x.place, hroot, hs.mem_withDescendants_rootOf hplace⟩

/-- A reference to another package leads to its module exactly when nothing takes the name under
which the package is imported. -/
theorem reads_import_iff
    {ref : Mention}
    (href : ref ∈ references s x)
    (hid : ref.decl ∈ s.ids)
    (hne : ref.decl.package ≠ x.place.package) :
    Reads s options x ref (.package ref.decl.package) ↔ ImportFree s options x ref := by
  have hwf := hfit.wellFormed_package ((s.mem_ids_iff _).mp hid).1
  have hother : Meaning.package ref.decl.package ≠ .other := by
    simp
  have habsent : ∀ n, (importName (s.package ref.decl.package), n) ∉
      [(x.ident .javascript s, Meaning.type x)] := by
    intro n hn
    exact typeIdent_ne_of_isValueName reservesValues_javascript (isValueName_importName hwf) _
      (Prod.mk.inj (List.mem_singleton.mp hn)).1.symm
  rw [Reads, firstSegment_classRef_import hfit hid hne, frames, means_valueFrame_cons _ hother,
    means_valueFrame_cons _ hother, means_cons_of_absent habsent, means_singleton_iff]
  simp only [mem_moduleFrame_importName _ hwf]
  constructor
  · rintro ⟨hparameters, hlocals, -, honly⟩
    refine ⟨hlocals, fun n hn heq => hparameters ?_, fun q hq heq => ?_⟩
    · exact List.mem_map.mpr ⟨n, List.mem_range.mpr hn, heq⟩
    · exact Meaning.package.inj (honly _ ⟨q, hq, heq, rfl⟩)
  · intro hfree
    refine ⟨fun hmem => ?_, hfree.locals, ⟨_, mem_imports hs hfit hx href hid hne, rfl, rfl⟩, ?_⟩
    · obtain ⟨n, hn, heq⟩ := List.mem_map.mp hmem
      exact hfree.parameters n (List.mem_range.mp hn) heq
    · rintro n ⟨q, hq, heq, rfl⟩
      rw [hfree.imports q hq heq]

end Reading

end JavaScript
end Target
end Schemata
