import Schemata.Proofs.Schema.Nesting
import Schemata.Proofs.Target.CSharpMention
import Schemata.Proofs.Target.Scope

/-!
# C#: what the names in a class stand for

A class binds the classes directly inside it, and so does each class around
it.  Around the outermost class are the namespaces on the way to the package,
each with its classes and its own namespaces.  A name behind `global::` is read
in the outermost namespace at once.

**Results.**
* `reads_local_iff`: when a reference within the package leads to the class of
  the root of what it refers to.
* `reads_global`: a reference to another package leads to its namespace.
-/

namespace Schemata
namespace Target
namespace CSharp

section Definitions

/-- The next segment on the way from a namespace to one inside it. -/
def nextSegment? : List String → List String → Option String
  | [], next :: _ => some next
  | a :: as, b :: bs => if a = b then nextSegment? as bs else none
  | _, [] => none

/-- A namespace and those around it, innermost first. -/
def outward
    (space : List String) :
    List (List String) :=
  (List.range (space.length + 1)).reverse.map space.take

/-- What stands behind `global::`. -/
def globalText?
    (text : String) :
    Option String :=
  ("global::".toList.isPrefixOf? text.toList).map String.ofList

variable (s : Schema)
variable (options : EmitOptions)

/-- The converter inside a class. -/
def converters
    (id : DeclId) :
    List String :=
  match (s.decl id).body with
  | .tuple _ => ["Json_Net_Converter"]
  | .interface body => if body.strategy = .untagged then ["Json_Net_Converter"] else []
  | _ => []

/-- What a class binds. -/
def classFrame
    (id : DeclId) :
    Frame :=
  (inner s id).map (fun y => (y.ident .csharp s, .type y)) ++ valueFrame (converters s id)

/-- What a namespace binds, if the code of some outermost declarations is there. -/
def spaceFrame
    (decls : List DeclId)
    (space : List String) :
    Frame :=
  (decls.filter fun d => segments (s.package d.package) = space).map
      (fun d => (Site.ident .csharp s (.decl d), .type (.decl d)))
    ++ decls.filterMap fun d =>
      (nextSegment? space (segments (s.package d.package))).map fun next =>
        (next, .space (space ++ [next]))

/-- The frames around the members of a class. -/
def frames
    (x : Site) :
    List Frame :=
  ((s.package x.place.package).parents x.place.index).map
      (fun index => classFrame s ⟨x.place.package, index⟩)
    ++ (outward (segments (s.package x.place.package))).map
      (spaceFrame s (Emit.written s options csharp))

/-- What a printed reference begins with stands for this. -/
def Reads
    (x : Site)
    (id : DeclId)
    (m : Meaning) : Prop :=
  match globalText? (typeName s x.place.package id) with
  | some text => Means (firstSegment text) m [spaceFrame s (Emit.written s options csharp) []]
  | none => Means (firstSegment (typeName s x.place.package id)) m (frames s options x)

/-- Nothing takes the name of an outermost declaration inside a class: no class inside it or inside
a class around it, no other outermost class of the namespace and no namespace in it. -/
structure RootFree
    (x : Site)
    (root : DeclId) : Prop where
  written : root ∈ Emit.written s options csharp
  inner : ∀ index ∈ (s.package x.place.package).parents x.place.index,
    ∀ y ∈ inner s ⟨x.place.package, index⟩, ¬Naming.SameWords (y.name s) (s.decl root).name
  others : ∀ d ∈ Emit.written s options csharp,
    (s.package d.package).ns.Alike (s.package root.package).ns →
      Naming.SameWords (s.decl d).name (s.decl root).name → d = root
  spaces : ∀ d ∈ Emit.written s options csharp,
    nextSegment? (segments (s.package root.package)) (segments (s.package d.package)) ≠
      some (typeIdent (s.decl root).name)

end Definitions

section Frames

variable {s : Schema}

theorem Reads.unique
    {options : EmitOptions}
    {x : Site}
    {id : DeclId}
    {m n : Meaning}
    (h : Reads s options x id m)
    (h' : Reads s options x id n) :
    m = n := by
  cases htext : globalText? (typeName s x.place.package id) with
  | none =>
      simp only [Reads, htext] at h h'
      exact h.unique h'
  | some text =>
      simp only [Reads, htext] at h h'
      exact h.unique h'

theorem mem_classFrame
    (id : DeclId)
    (name : String)
    (m : Meaning) :
    (typeIdent name, m) ∈ classFrame s id ↔
      ∃ y ∈ inner s id, Naming.SameWords (y.name s) name ∧ m = .type y := by
  have hconverter : ∀ n, (typeIdent name, n) ∉ valueFrame (converters s id) := by
    intro n hn
    have hname : typeIdent name = "Json_Net_Converter" := by
      have hmem := (mem_valueFrame.mp hn).1
      unfold converters at hmem
      split at hmem
      · exact List.mem_singleton.mp hmem
      · split at hmem
        · exact List.mem_singleton.mp hmem
        · cases hmem
      · cases hmem
    have hplain := Naming.underscore_not_mem_upperCamel name
    rw [← typeIdent_eq_upperCamel reservesValues_csharp, ← typeIdent, hname] at hplain
    exact hplain (by decide)
  simp only [classFrame, List.mem_append, List.mem_map, Prod.mk.injEq]
  constructor
  · rintro (⟨y, hy, hname, rfl⟩ | hmem)
    · exact ⟨y, hy, (Emit.typeIdent_eq_iff _ _ _).mp hname, rfl⟩
    · exact absurd hmem (hconverter m)
  · rintro ⟨y, hy, hsame, rfl⟩
    exact .inl ⟨y, hy, (Emit.typeIdent_eq_iff _ _ _).mpr hsame, rfl⟩

theorem mem_spaceFrame
    (decls : List DeclId)
    (space : List String)
    (name : String)
    (m : Meaning) :
    (name, m) ∈ spaceFrame s decls space ↔
      (∃ d ∈ decls, segments (s.package d.package) = space ∧
        Site.ident .csharp s (.decl d) = name ∧ m = .type (.decl d)) ∨
      ∃ d ∈ decls, nextSegment? space (segments (s.package d.package)) = some name ∧
        m = .space (space ++ [name]) := by
  simp only [spaceFrame, List.mem_append, List.mem_map, List.mem_filter, decide_eq_true_eq,
    List.mem_filterMap, Option.map_eq_some_iff, Prod.mk.injEq]
  constructor
  · rintro (⟨d, ⟨hd, hspace⟩, hname, rfl⟩ | ⟨d, hd, next, hnext, rfl, rfl⟩)
    · exact .inl ⟨d, hd, hspace, hname, rfl⟩
    · exact .inr ⟨d, hd, hnext, rfl⟩
  · rintro (⟨d, hd, hspace, hname, rfl⟩ | ⟨d, hd, hnext, rfl⟩)
    · exact .inl ⟨d, ⟨hd, hspace⟩, hname, rfl⟩
    · exact .inr ⟨d, hd, name, hnext, rfl, rfl⟩

theorem outward_eq_cons
    (space : List String) :
    ∃ outer, outward space = space :: outer := by
  refine ⟨(List.range space.length).reverse.map space.take, ?_⟩
  rw [outward, List.range_succ, List.reverse_append, List.reverse_singleton, List.singleton_append,
    List.map_cons, List.take_length]

/-- A path begins with the identifier of the root, which does not begin like `global::`. -/
theorem globalText?_local
    (hs : s.Linked)
    {home : Nat}
    {id : DeclId}
    (hid : id ∈ s.ids)
    (hpackage : id.package = home) :
    globalText? (typeName s home id) = none ∧
      firstSegment (typeName s home id) = typeIdent (s.decl (s.rootOf id)).name := by
  obtain ⟨rest, hpath⟩ := hs.declPath_eq_cons hid
  rw [typeName, if_pos hpackage, classPath, hpath, List.map_cons]
  refine ⟨?_, firstSegment_intercalate (Emit.isIdentText_typeIdent _ _).dot_not_mem _⟩
  obtain ⟨after, htext, hafter⟩ :=
    toList_intercalate_cons "." (typeIdent (s.decl (s.rootOf id)).name) (rest.map typeIdent)
  rw [globalText?, Option.map_eq_none_iff, Option.eq_none_iff_forall_ne_some]
  intro global hglobal
  rw [List.isPrefixOf?_eq_some_iff_append_eq, htext] at hglobal
  cases hroot : (typeIdent (s.decl (s.rootOf id)).name).toList with
  | nil =>
      rw [hroot, List.nil_append] at hglobal
      rcases hafter with rfl | ⟨more, rfl⟩ <;> cases hglobal
  | cons c cs =>
      rw [hroot] at hglobal
      obtain ⟨rfl, -⟩ := List.cons.inj hglobal
      exact not_isValueName_typeIdent reservesValues_csharp _ ⟨'g', cs, hroot, .inl rfl⟩

theorem globalText?_global
    {home : Nat}
    {id : DeclId}
    (hne : id.package ≠ home) :
    globalText? (typeName s home id) =
      some (namespaceText (s.package id.package) ++ "." ++ classPath s id) := by
  rw [globalText?, Option.map_eq_some_iff]
  refine ⟨_, List.isPrefixOf?_eq_some_iff_append_eq.mpr ?_, String.ofList_toList⟩
  simp only [typeName, if_neg hne, String.toList_append, List.append_assoc]
  rfl

/-- No outermost declaration is inside a class. -/
theorem root_not_mem_inner
    (hs : s.Linked)
    {root outer : DeclId}
    (hroot : root ∈ s.rootsOf root.package)
    (hpackage : root.package < s.packages.length) :
    .decl root ∉ inner s outer := by
  intro hinner
  have hlt := index_lt_of_mem_inner hinner
  obtain ⟨index, hchild, rfl⟩ := List.mem_map.mp ((mem_inner_decl outer root).mp hinner)
  obtain ⟨index', hindex', heq⟩ := List.mem_map.mp hroot
  obtain rfl : index' = index := (DeclId.mk.inj heq).2
  have hforest := hs.forest _ _ (s.getElem?_package hpackage)
  have hparent := (hforest.parent_of_mem_children hlt hchild).2
  rw [hforest.parent_of_mem_roots hindex'] at hparent
  cases hparent

end Frames

section Reading

variable {s : Schema}
variable {options : EmitOptions}

/-- In the namespaces around a class, the name of an outermost declaration of the package stands for
it exactly when nothing else in the namespace has the name. -/
theorem means_spaces_iff
    (options : EmitOptions)
    (root : DeclId) :
    Means (typeIdent (s.decl root).name) (.type (.decl root))
        ((outward (segments (s.package root.package))).map
          (spaceFrame s (Emit.written s options csharp))) ↔
      root ∈ Emit.written s options csharp ∧
        (∀ d ∈ Emit.written s options csharp,
          (s.package d.package).ns.Alike (s.package root.package).ns →
            Naming.SameWords (s.decl d).name (s.decl root).name → d = root) ∧
        ∀ d ∈ Emit.written s options csharp,
          nextSegment? (segments (s.package root.package)) (segments (s.package d.package)) ≠
            some (typeIdent (s.decl root).name) := by
  have hwritten : ∀ space, (typeIdent (s.decl root).name, Meaning.type (.decl root)) ∈
      spaceFrame s (Emit.written s options csharp) space →
        root ∈ Emit.written s options csharp := by
    intro space hmem
    rcases (mem_spaceFrame ..).mp hmem with ⟨d, hd, -, -, heq⟩ | ⟨d, -, -, heq⟩
    · obtain rfl : root = d := Site.decl.inj (Meaning.type.inj heq)
      exact hd
    · cases heq
  have hfirst : root ∈ Emit.written s options csharp →
      (typeIdent (s.decl root).name, Meaning.type (.decl root)) ∈
        spaceFrame s (Emit.written s options csharp) (segments (s.package root.package)) :=
    fun hroot => (mem_spaceFrame ..).mpr (.inl ⟨root, hroot, rfl, rfl, rfl⟩)
  obtain ⟨outer, houter⟩ := outward_eq_cons (segments (s.package root.package))
  rw [houter]
  constructor
  · intro h
    have hroot : root ∈ Emit.written s options csharp := by
      obtain ⟨frame, hframe, hmem⟩ := h.exists_mem
      obtain ⟨space, -, rfl⟩ := List.mem_map.mp hframe
      exact hwritten space hmem
    rw [List.map_cons, means_cons_of_mem (hfirst hroot)] at h
    refine ⟨hroot, fun d hd halike hsame => ?_, fun d hd hnext => ?_⟩
    · have hsegments := (Emit.namespaceSegments_upperCamel_eq_iff _ _).mpr halike
      have hident := (Emit.typeIdent_eq_iff .csharp _ _).mpr hsame
      have honly := h _ ((mem_spaceFrame ..).mpr (.inl ⟨d, hd, hsegments, hident, rfl⟩))
      exact Site.decl.inj (Meaning.type.inj honly)
    · cases h _ ((mem_spaceFrame ..).mpr (.inr ⟨d, hd, hnext, rfl⟩))
  · rintro ⟨hroot, hothers, hspaces⟩
    rw [List.map_cons, means_cons_of_mem (hfirst hroot)]
    intro n hn
    rcases (mem_spaceFrame ..).mp hn with ⟨d, hd, hsegments, hident, rfl⟩ | ⟨d, hd, hnext, rfl⟩
    · rw [hothers d hd ((Emit.namespaceSegments_upperCamel_eq_iff _ _).mp hsegments)
        ((Emit.typeIdent_eq_iff .csharp _ _).mp hident)]
    · exact absurd hnext (hspaces d hd)

variable (hs : s.Linked)
variable {x : Site}
variable {id : DeclId}
variable (hid : id ∈ s.ids)

include hs hid

/-- A reference within the package leads to the root of what it refers to exactly when nothing
takes the name of the root. -/
theorem reads_local_iff
    (hpackage : id.package = x.place.package) :
    Reads s options x id (.type (.decl (s.rootOf id))) ↔ RootFree s options x (s.rootOf id) := by
  obtain ⟨hglobal, hfirst⟩ := globalText?_local hs hid hpackage
  have hroot := hs.rootOf id hid
  have hlt := ((s.mem_ids_iff id).mp hid).1
  have hinner : ¬Means (typeIdent (s.decl (s.rootOf id)).name) (.type (.decl (s.rootOf id)))
      (((s.package x.place.package).parents x.place.index).map
        fun index => classFrame s ⟨x.place.package, index⟩) := by
    intro h
    obtain ⟨frame, hframe, hmem⟩ := h.exists_mem
    obtain ⟨index, -, rfl⟩ := List.mem_map.mp hframe
    obtain ⟨y, hy, -, heq⟩ := (mem_classFrame ..).mp hmem
    rw [← Meaning.type.inj heq] at hy
    exact root_not_mem_inner hs hroot hlt hy
  have hspace : segments (s.package x.place.package) =
      segments (s.package (s.rootOf id).package) := by
    rw [← hpackage]
    rfl
  simp only [Reads, hglobal, hfirst, frames, hspace, means_append, hinner, false_or,
    means_spaces_iff options, List.forall_mem_map, mem_classFrame]
  constructor
  · rintro ⟨habsent, hwritten, hothers, hnext⟩
    refine ⟨hwritten, fun index hindex y hy hsame => ?_, hothers, hnext⟩
    exact habsent index hindex _ ⟨y, hy, hsame, rfl⟩
  · intro hfree
    refine ⟨?_, hfree.written, hfree.others, hfree.spaces⟩
    rintro index hindex n ⟨y, hy, hsame, -⟩
    exact hfree.inner index hindex y hy hsame

variable (hfit : s.NamespacesFit)

include hfit

/-- A reference to another package leads to its namespace. -/
theorem reads_global
    (hne : id.package ≠ x.place.package)
    (hwritten : s.rootOf id ∈ Emit.written s options csharp) :
    ∃ first rest, segments (s.package id.package) = first :: rest ∧
      Reads s options x id (.space [first]) := by
  have hwf : ∀ {d}, d ∈ s.ids → (s.package d.package).ns.WellFormed :=
    fun hd => hfit.wellFormed_package ((s.mem_ids_iff _).mp hd).1
  have hne_nil : ∀ {d}, d ∈ s.ids → segments (s.package d.package) ≠ [] :=
    fun hd => Emit.namespaceSegments_ne_nil _ (hwf hd)
  obtain ⟨first, rest, hsegments⟩ := List.exists_cons_of_ne_nil (hne_nil hid)
  refine ⟨first, rest, hsegments, ?_⟩
  have hmem : first ∈ segments (s.package id.package) := hsegments ▸ List.mem_cons_self
  have hdot : '.' ∉ first.toList :=
    (Emit.isIdentText_namespaceSegments_upperCamel (hwf hid) first hmem).dot_not_mem
  have hfirst : firstSegment (namespaceText (s.package id.package) ++ "." ++ classPath s id) =
      first := by
    obtain ⟨after, htext, hafter⟩ := toList_intercalate_cons "." first rest
    have hrest : ∃ more, after ++ '.' :: (classPath s id).toList = '.' :: more := by
      rcases hafter with rfl | ⟨more, rfl⟩ <;> exact ⟨_, rfl⟩
    refine firstSegment_of_append hdot (.inr hrest) ?_
    rw [namespaceText, hsegments, String.toList_append, String.toList_append, htext,
      List.append_assoc, List.append_assoc]
    rfl
  simp only [Reads, globalText?_global hne, hfirst, means_singleton_iff, mem_spaceFrame]
  refine ⟨.inr ⟨s.rootOf id, hwritten, ?_, rfl⟩, ?_⟩
  · rw [show (s.rootOf id).package = id.package from rfl, hsegments]
    rfl
  · rintro n (⟨d, hd, hspace, -⟩ | ⟨d, -, -, rfl⟩)
    · exact absurd hspace (hne_nil (Emit.mem_ids_of_mem_written hs hd))
    · rfl

end Reading

end CSharp
end Target
end Schemata
