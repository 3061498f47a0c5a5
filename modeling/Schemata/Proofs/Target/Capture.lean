import Schemata.Proofs.Target.CSharpScope
import Schemata.Proofs.Target.JavaScriptScope

/-!
# Which references are captured

A reference is printed as a path from the root of what it refers to, and read
by the scopes of the language.  It leads to the root unless something nearer
has the identifier of the root: in JavaScript the class itself, in C# a class
inside the class or inside one around it.  Resolution keeps the names in one
scope apart, but a nested declaration or a case may well have the name of an
outermost declaration.

**Results.**
* `resolve_reads`: when references lead to what they refer to, and a rule for
  names that is enough for this.
* `exists_captured_reference`: a reference that leads to a case instead.
-/

namespace Schemata

/-- No nested declaration, case or other outermost declaration of a package has the name of an
outermost one. -/
def Schema.RootNamesKept
    (s : Schema) : Prop :=
  ∀ x ∈ Target.sites s, ∀ d ∈ s.rootsOf x.place.package,
    Naming.SameWords (x.name s) (s.decl d).name → x = .decl d

namespace Target

/-- No namespace inside that of a package has the name of an outermost declaration. -/
def CSharp.SpacesApart
    (s : Schema) : Prop :=
  ∀ i < s.packages.length, ∀ j < s.packages.length, ∀ d ∈ s.rootsOf i,
    nextSegment? (segments (s.package i)) (segments (s.package j)) ≠
      some (typeIdent (s.decl d).name)

section References

variable {options : ResolveOptions}
variable {files : List SourceFile}
variable {s : Schema}
variable (h : Resolve.ResolvedFrom options files s)
variable {x : Site}
variable (hx : x ∈ sites s)

include h hx

theorem mem_ids_of_mem_fields
    {f : Field}
    (hf : f ∈ x.fields s)
    {id : DeclId}
    (hid : id ∈ f.type.mentioned) :
    id ∈ s.ids := by
  obtain ⟨place, hplace⟩ := exists_typed_of_mem_fields hx hf
  exact mem_ids_of_typed h (place_mem_ids hx) hplace hid

theorem JavaScript.mem_ids_of_mem_references
    {ref : JavaScript.Mention}
    (href : ref ∈ JavaScript.references s x) :
    ref.decl ∈ s.ids := by
  rcases List.mem_append.mp href with hfield | hown
  · obtain ⟨f, hf, hm⟩ := List.mem_flatMap.mp hfield
    exact mem_ids_of_mem_fields h hx hf (JavaScript.mem_mentioned_of_mentions hm)
  · cases x with
    | decl id =>
        obtain ⟨c, -, rfl⟩ := List.mem_map.mp hown
        exact (mem_sites_decl id).mp hx
    | case id c =>
        cases hown

theorem CSharp.mem_ids_of_mem_references
    {id : DeclId}
    (hid : id ∈ CSharp.references s x) :
    id ∈ s.ids := by
  rcases List.mem_append.mp hid with hfield | hown
  · obtain ⟨f, hf, hm⟩ := List.mem_flatMap.mp hfield
    exact mem_ids_of_mem_fields h hx hf hm
  · cases x with
    | decl owner =>
        have howner := (mem_sites_decl owner).mp hx
        cases hbody : (s.decl owner).body with
        | tuple fields =>
            simp only [CSharp.ownReferences, hbody, List.mem_singleton] at hown
            exact hown ▸ howner
        | interface body =>
            simp only [CSharp.ownReferences, hbody] at hown
            split at hown
            · obtain ⟨c, -, rfl⟩ := List.mem_map.mp hown
              exact howner
            · cases hown
        | service endpoints =>
            simp only [CSharp.ownReferences, hbody] at hown
            obtain ⟨e, he, hown⟩ := List.mem_flatMap.mp hown
            obtain ⟨c, hc, hown⟩ := List.mem_flatMap.mp hown
            have htyped : ∃ place, (place, c.type) ∈ (s.decl owner).body.typed := by
              simp only [hbody, DeclBody.typed, List.mem_flatMap, List.mem_append]
              rcases List.mem_append.mp hc with hargument | hresponse
              · obtain ⟨a, ha, rfl⟩ := List.mem_map.mp hargument
                exact ⟨_, e, he, .inl (List.mem_map_of_mem ha)⟩
              · exact ⟨_, e, he, .inr (List.mem_map_of_mem hresponse)⟩
            obtain ⟨place, hplace⟩ := htyped
            exact mem_ids_of_typed h howner hplace hown
        | type | enum =>
            simp [CSharp.ownReferences, hbody] at hown
    | case owner c =>
        cases hown

end References

section Kept

variable {s : Schema}
variable (hs : s.Linked)
variable (hkept : s.RootNamesKept)
variable {options : EmitOptions}
variable {x : Site}
variable {root : DeclId}
variable (hpackage : root.package = x.place.package)

include hs hkept hpackage

theorem JavaScript.rootFree_of_kept
    (hx : x ∈ sites s)
    (hroot : root ∈ Emit.written s options javascript) :
    JavaScript.RootFree s options x root := by
  have hmem := ((Emit.mem_roots_iff options root).mp (List.mem_filter.mp hroot).1).2
  refine ⟨hroot, fun hsame => hkept x hx root (hpackage ▸ hmem) hsame, fun _ d hd hd' hsame => ?_⟩
  have hsite := (mem_sites_decl d).mpr (Emit.mem_ids_of_mem_written hs hd)
  have hmem' : root ∈ s.rootsOf (Site.decl d).place.package := by
    rw [Site.place, hd']
    exact hmem
  exact Site.decl.inj (hkept _ hsite root hmem' hsame)

theorem CSharp.rootFree_of_kept
    (hapart : s.PackagesApart)
    (hspaces : CSharp.SpacesApart s)
    (hroot : root ∈ Emit.written s options csharp) :
    CSharp.RootFree s options x root := by
  have hlt : ∀ {d}, d ∈ Emit.written s options csharp → d.package < s.packages.length :=
    fun hd => ((s.mem_ids_iff _).mp (Emit.mem_ids_of_mem_written hs hd)).1
  have hmem := ((Emit.mem_roots_iff options root).mp (List.mem_filter.mp hroot).1).2
  have hkept' : ∀ y ∈ sites s, y.place.package = root.package →
      Naming.SameWords (y.name s) (s.decl root).name → y = .decl root :=
    fun y hy hyp hsame => hkept y hy root (hyp ▸ hmem) hsame
  refine ⟨hroot, fun index _ y hy hsame => ?_, fun d hd halike hsame => ?_, fun d hd => ?_⟩
  · have hindex := index_lt_of_mem_inner hy
    have houter : ⟨x.place.package, index⟩ ∈ s.ids :=
      (s.mem_ids_iff _).mpr ⟨hpackage ▸ hlt hroot, hindex⟩
    obtain ⟨hsite, hplace⟩ := mem_sites_of_mem_inner hs houter hy
    rw [hkept' y hsite (hplace.trans hpackage.symm) hsame] at hy
    exact CSharp.root_not_mem_inner hs hmem (hlt hroot) hy
  · have hsite := (mem_sites_decl d).mpr (Emit.mem_ids_of_mem_written hs hd)
    exact Site.decl.inj
      (hkept' _ hsite (hapart _ (hlt hd) _ (hlt hroot) halike) hsame)
  · exact hspaces _ (hlt hroot) _ (hlt hd) root hmem

end Kept

end Target

section Resolved

open Target

/-- When references in classes of files that resolve lead to what they refer to.  Each reference is
printed in its class.  Within a package it leads to the root exactly when nothing nearer takes the
name of the root.  To another package it leads exactly when nothing takes the name of the import in
JavaScript, and always in C#.  Within a package it is enough that no nested declaration, case or
other outermost declaration has the name of an outermost one, and for C# that packages and
namespaces are spelled apart as well. -/
theorem resolve_reads
    {options : ResolveOptions}
    {files : List SourceFile}
    {r : Resolved}
    (h : resolve options files = .ok r)
    (hnames : ∀ f ∈ files, f.identity.name.IsValid)
    (emitOptions : EmitOptions) :
    (∀ x ∈ classes r.schema emitOptions javascript, ∀ ref ∈ JavaScript.references r.schema x,
      JavaScript.Shows r.schema emitOptions.placement x ref.decl ∧
        (ref.decl.package = x.place.package →
          (JavaScript.Reads r.schema emitOptions x ref (.type (.decl (r.schema.rootOf ref.decl))) ↔
            JavaScript.RootFree r.schema emitOptions x (r.schema.rootOf ref.decl))) ∧
        (ref.decl.package ≠ x.place.package →
          (JavaScript.Reads r.schema emitOptions x ref (.package ref.decl.package) ↔
            JavaScript.ImportFree r.schema emitOptions x ref))) ∧
      (∀ x ∈ classes r.schema emitOptions csharp, ∀ id ∈ CSharp.references r.schema x,
        CSharp.Shows r.schema emitOptions.placement x id ∧
          (id.package = x.place.package →
            (CSharp.Reads r.schema emitOptions x id (.type (.decl (r.schema.rootOf id))) ↔
              CSharp.RootFree r.schema emitOptions x (r.schema.rootOf id))) ∧
          (id.package ≠ x.place.package →
            r.schema.rootOf id ∈ Emit.written r.schema emitOptions csharp →
              ∃ first rest, CSharp.segments (r.schema.package id.package) = first :: rest ∧
                CSharp.Reads r.schema emitOptions x id (.space [first]))) ∧
      (r.schema.RootNamesKept →
        (∀ x ∈ classes r.schema emitOptions javascript, ∀ ref ∈ JavaScript.references r.schema x,
          ref.decl.package = x.place.package →
            r.schema.rootOf ref.decl ∈ Emit.written r.schema emitOptions javascript →
              JavaScript.Reads r.schema emitOptions x ref
                (.type (.decl (r.schema.rootOf ref.decl)))) ∧
          (r.schema.PackagesApart → CSharp.SpacesApart r.schema →
            ∀ x ∈ classes r.schema emitOptions csharp, ∀ id ∈ CSharp.references r.schema x,
              id.package = x.place.package →
                r.schema.rootOf id ∈ Emit.written r.schema emitOptions csharp →
                  CSharp.Reads r.schema emitOptions x id (.type (.decl (r.schema.rootOf id))))) := by
  have hresolved := Resolve.resolvedFrom_of_resolve h
  have hs : r.schema.Linked := linked_of_resolvedFrom hresolved
  have hfit := Resolve.namespacesFit_of_resolve h hnames
  refine ⟨fun x hx ref href => ?_, fun x hx id hid => ?_, fun hkept => ⟨?_, ?_⟩⟩
  · have hsite := (mem_classes.mp hx).1
    have hdecl := JavaScript.mem_ids_of_mem_references hresolved hsite href
    exact ⟨JavaScript.shows_of_mem_references emitOptions.placement hsite href,
      JavaScript.reads_local_iff hs hfit hx hdecl,
      JavaScript.reads_import_iff hs hfit hx href hdecl⟩
  · have hsite := (mem_classes.mp hx).1
    have hdecl := CSharp.mem_ids_of_mem_references hresolved hsite hid
    exact ⟨CSharp.shows_of_mem_references emitOptions.placement hsite hid,
      CSharp.reads_local_iff hs hdecl, CSharp.reads_global hs hdecl hfit⟩
  · intro x hx ref href hpackage hwritten
    have hsite := (mem_classes.mp hx).1
    have hdecl := JavaScript.mem_ids_of_mem_references hresolved hsite href
    exact (JavaScript.reads_local_iff hs hfit hx hdecl hpackage).mpr
      (JavaScript.rootFree_of_kept hs hkept hpackage hsite hwritten)
  · intro hapart hspaces x hx id hid hpackage hwritten
    have hsite := (mem_classes.mp hx).1
    have hdecl := CSharp.mem_ids_of_mem_references hresolved hsite hid
    exact (CSharp.reads_local_iff hs hdecl hpackage).mpr
      (CSharp.rootFree_of_kept hs hkept hpackage hapart hspaces hwritten)

end Resolved

namespace Sample

open Target

/-- The point among the shapes. -/
def pointSite : Site :=
  .case ⟨0, 0⟩ ⟨"Point", "Point", [], pointFields, default⟩

/-- The line among the shapes. -/
def lineSite : Site :=
  .case ⟨0, 0⟩ ⟨"Line", "Line", [], lineFields, default⟩

theorem sites_shapes :
    sites schema = [.decl ⟨0, 0⟩, pointSite, lineSite, .decl ⟨0, 1⟩] :=
  rfl

theorem rootNamesKept_shapes :
    schema.RootNamesKept := by
  intro x hx d hd hsame
  simp only [sites_shapes, List.mem_cons, List.not_mem_nil, or_false] at hx
  rcases hx with rfl | rfl | rfl | rfl
  · rw [show d = ⟨0, 0⟩ from List.mem_singleton.mp hd]
  all_goals
    rw [show d = ⟨0, 0⟩ from List.mem_singleton.mp hd] at hsame
    exact absurd hsame (by decide)

theorem written_shapes :
    Emit.written schema everything javascript = [⟨0, 0⟩] ∧
      Emit.written schema everything csharp = [⟨0, 0⟩] := by
  decide

/-- A file with a case that has the name of an outermost declaration, and refers to it. -/
def shadowed : SourceFile :=
  { file := 0
    identity := ⟨⟨["foo"]⟩, none⟩
    tree :=
      { doc := []
        imports := []
        decls :=
          [⟨[], [], ⟨"B", default⟩, .type [], default⟩,
            ⟨[], [], ⟨"I", default⟩,
              .interface []
                [⟨[], ⟨"B", default⟩, none,
                  [field "x" false (.name ⟨none, ["B"], default⟩)], default⟩],
              default⟩] } }

/-- The case. -/
def shadow : SubType :=
  ⟨"B", "B", [], [⟨"x", "x", .decl ⟨0, 0⟩, false, [], default⟩], default⟩

/-- The type of the case. -/
def shadowSite : Site :=
  .case ⟨0, 1⟩ shadow

/-- The schema of the file. -/
def shadowedSchema : Schema :=
  ⟨[{ identity := ⟨⟨["foo"]⟩, none⟩
      ns := ⟨["foo"], none⟩
      doc := []
      decls :=
        [⟨⟨0, 0⟩, "B", [], none, [], .type [], default⟩,
          ⟨⟨0, 1⟩, "I", [], none, [], .interface ⟨[], [shadow], .tagged "type"⟩, default⟩]
      roots := [0, 1] }]⟩

theorem resolve_shadowed :
    resolve options [shadowed] = .ok ⟨shadowedSchema, []⟩ := by
  with_unfolding_all rfl

theorem written_shadowed :
    Emit.written shadowedSchema everything javascript = [⟨0, 0⟩, ⟨0, 1⟩] ∧
      Emit.written shadowedSchema everything csharp = [⟨0, 0⟩, ⟨0, 1⟩] := by
  decide

theorem mem_sites_shadow :
    shadowSite ∈ sites shadowedSchema :=
  (mem_sites_case _ _).mpr ⟨by decide, List.mem_singleton_self _⟩

theorem reads_shadow_javascript :
    JavaScript.Reads shadowedSchema everything shadowSite ⟨⟨0, 0⟩, 0⟩
      (.type shadowSite) := by
  have hname : firstSegment (JavaScript.classRef shadowedSchema 0 ⟨0, 0⟩) =
      JavaScript.typeIdent "B" := by
    decide
  rw [JavaScript.Reads, show shadowSite.place.package = 0 from rfl, hname,
    JavaScript.means_frames_iff]
  exact ⟨fun _ => rfl, fun hne => absurd rfl hne⟩

theorem reads_shadow_csharp :
    CSharp.Reads shadowedSchema everything shadowSite ⟨0, 0⟩
      (.type shadowSite) := by
  have hglobal : CSharp.globalText? (CSharp.typeName shadowedSchema 0 ⟨0, 0⟩) = none := by
    decide
  have hname : firstSegment (CSharp.typeName shadowedSchema 0 ⟨0, 0⟩) =
      CSharp.typeIdent "B" := by
    decide
  have hframe : Means (CSharp.typeIdent "B") (.type shadowSite)
      [CSharp.classFrame shadowedSchema ⟨0, 1⟩] := by
    rw [means_singleton_iff]
    simp only [CSharp.mem_classFrame]
    refine ⟨⟨_, List.mem_singleton_self _, rfl, rfl⟩, ?_⟩
    rintro n ⟨y, hy, -, rfl⟩
    rw [show y = shadowSite from List.mem_singleton.mp hy]
  have hplace : shadowSite.place.package = 0 := rfl
  simp only [CSharp.Reads, hplace, hglobal, hname]
  exact (means_append _ _).mpr (.inl hframe)

end Sample

section Samples

open Target

theorem resolve_reads_shapes :
    resolve Sample.options [Sample.shapes] = .ok ⟨Sample.schema, []⟩ ∧
      (∀ f ∈ [Sample.shapes], f.identity.name.IsValid) ∧
      ⟨⟨0, 0⟩, 1⟩ ∈ JavaScript.references Sample.schema Sample.lineSite ∧
      ⟨0, 0⟩ ∈ CSharp.references Sample.schema Sample.lineSite ∧
      JavaScript.Reads Sample.schema Sample.everything Sample.lineSite ⟨⟨0, 0⟩, 1⟩
        (.type (.decl ⟨0, 0⟩)) ∧
      CSharp.Reads Sample.schema Sample.everything Sample.lineSite ⟨0, 0⟩
        (.type (.decl ⟨0, 0⟩)) := by
  have hvalid : ∀ f ∈ [Sample.shapes], f.identity.name.IsValid := by
    intro f hf
    rw [List.mem_singleton.mp hf]
    exact ⟨"shapes", by decide +kernel⟩
  obtain ⟨hwritten, hwritten'⟩ := Sample.written_shapes
  have hsite : Sample.lineSite ∈ sites Sample.schema := by
    simp [Sample.sites_shapes]
  have hjavascript : ⟨⟨0, 0⟩, 1⟩ ∈ JavaScript.references Sample.schema Sample.lineSite :=
    List.mem_singleton_self _
  have hcsharp : ⟨0, 0⟩ ∈ CSharp.references Sample.schema Sample.lineSite :=
    List.mem_singleton_self _
  obtain ⟨-, -, hrule⟩ := resolve_reads Sample.resolve_shapes hvalid Sample.everything
  obtain ⟨hreads, hreads'⟩ := hrule Sample.rootNamesKept_shapes
  have hapart : Sample.schema.PackagesApart := by
    intro i hi j hj _
    exact (Nat.lt_one_iff.mp hi).trans (Nat.lt_one_iff.mp hj).symm
  have hspaces : CSharp.SpacesApart Sample.schema := by
    have hnone : CSharp.nextSegment? (CSharp.segments (Sample.schema.package 0))
        (CSharp.segments (Sample.schema.package 0)) = none := by
      decide +kernel
    intro i hi j hj d _
    rw [Nat.lt_one_iff.mp hi, Nat.lt_one_iff.mp hj, hnone]
    exact Option.some_ne_none _ |>.symm
  refine ⟨Sample.resolve_shapes, hvalid, hjavascript, hcsharp, ?_, ?_⟩
  · exact hreads _ (mem_classes.mpr ⟨hsite, hwritten ▸ List.mem_singleton_self _⟩) _ hjavascript rfl
      (hwritten ▸ List.mem_singleton_self _)
  · exact hreads' hapart hspaces _
      (mem_classes.mpr ⟨hsite, hwritten' ▸ List.mem_singleton_self _⟩) _ hcsharp rfl
      (hwritten' ▸ List.mem_singleton_self _)

/-- A reference to an outermost declaration in a case of the same name leads to the case, in both
languages. -/
theorem exists_captured_reference :
    resolve Sample.options [Sample.shadowed] = .ok ⟨Sample.shadowedSchema, []⟩ ∧
      Sample.shadowSite ∈ classes Sample.shadowedSchema Sample.everything javascript ∧
      ⟨⟨0, 0⟩, 0⟩ ∈ JavaScript.references Sample.shadowedSchema Sample.shadowSite ∧
      ¬JavaScript.Reads Sample.shadowedSchema Sample.everything Sample.shadowSite
        ⟨⟨0, 0⟩, 0⟩ (.type (.decl ⟨0, 0⟩)) ∧
      Sample.shadowSite ∈ classes Sample.shadowedSchema Sample.everything csharp ∧
      ⟨0, 0⟩ ∈ CSharp.references Sample.shadowedSchema Sample.shadowSite ∧
      ¬CSharp.Reads Sample.shadowedSchema Sample.everything Sample.shadowSite
        ⟨0, 0⟩ (.type (.decl ⟨0, 0⟩)) := by
  obtain ⟨hwritten, hwritten'⟩ := Sample.written_shadowed
  refine ⟨Sample.resolve_shadowed, mem_classes.mpr ⟨Sample.mem_sites_shadow, ?_⟩,
    List.mem_singleton_self _, fun h => ?_, mem_classes.mpr ⟨Sample.mem_sites_shadow, ?_⟩,
    List.mem_singleton_self _, fun h => ?_⟩
  · rw [hwritten]
    decide
  · cases h.unique Sample.reads_shadow_javascript
  · rw [hwritten']
    decide
  · cases h.unique Sample.reads_shadow_csharp

end Samples

end Schemata
