import Schemata.Proofs.Resolve.Reference
import Schemata.Proofs.Schema.Nesting
import Schemata.Proofs.Target.Member

/-!
# C#: classes inside classes

The class of a declaration holds the classes of the declarations directly
inside it and those of its cases, and none of these may have its identifier.  A
declaration with the name of the one around it is refused.  But names are
compared there and not identifiers, and cases are not looked at: identifiers
agree where names have the same words, and of plain names those of a case and
of its interface can.

**Results.** `nests_of_mem_inner`, `name_ne_of_refusal?`,
`resolve_nested_classes`.
-/

namespace Schemata

namespace Target
namespace CSharp

section Printed

variable (s : Schema)

/-- Code has the class of a declaration, and directly inside it the class of the type. -/
def Nests
    (outer : DeclId)
    (y : Site)
    (code : Code) : Prop :=
  code.Has fun part => ∃ inside,
    part = Code.block (heading s (.decl outer)) inside ∧ Code.Opens (heading s y) inside

variable {s}
variable (placement : Placement)

theorem opens_caseClass
    (home : Nat)
    (name : String)
    (body : InterfaceBody)
    (id : DeclId)
    (c : SubType) :
    Code.Opens (heading s (.case id c)) (caseClass s home name body c) := by
  have hcase : heading s (.case id c) = "public class " ++ typeIdent c.name := rfl
  have hheader : s!"public class {typeIdent c.name} : {name}" =
      heading s (.case id c) ++ (" : " ++ name) := by
    rw [hcase, ← String.append_assoc]
    rfl
  unfold caseClass
  simp only [hheader]
  exact (Code.Opens.block_append _ _ _).append_right _

/-- The class of a declaration other than an enum ends with the classes of the declarations inside
it, and those of its cases come before. -/
theorem exists_inside
    {id : DeclId}
    (henum : ∀ type members, (s.decl id).body ≠ .enum type members)
    (made : List Code) :
    ∃ before own, declCode s placement id made =
        before ++ Code.block (heading s (.decl id)) (own ++ made.flatMap (Code.blank ++ ·)) ∧
      ∀ c ∈ s.cases id, Code.Opens (heading s (.case id c)) own := by
  obtain ⟨before, classes, hcode, hclasses⟩ := exists_declCode placement henum made
  refine ⟨before, _, hcode, fun c hc => ?_⟩
  obtain ⟨body, hbody, hmem⟩ := exists_body_of_case hc
  rw [hclasses body hbody]
  exact ((opens_caseClass _ _ _ id c).flatMap hmem).append_right _

/-- The class of a declaration is in its code. -/
theorem opens_declCode
    (id : DeclId)
    (made : List Code) :
    Code.Opens (heading s (.decl id)) (declCode s placement id made) := by
  by_cases henum : ∀ type members, (s.decl id).body ≠ .enum type members
  · obtain ⟨before, own, hcode, -⟩ := exists_inside placement henum made
    rw [hcode]
    exact (Code.Opens.block _ _).append_right _
  · push Not at henum
    obtain ⟨type, members, hbody⟩ := henum
    have hheading : "public enum " ++ typeIdent (s.decl id).name = heading s (.decl id) := by
      rw [heading, opening, hbody]
      rfl
    simp only [declCode, hbody, enumCode]
    refine Code.Opens.append_right ?_ _
    split
    · rw [← hheading]
      exact (Code.Opens.block _ _).append_right _
    · rw [← hheading]
      have hheader : s!"public enum {typeIdent (s.decl id).name} : {primitiveText type.primitive}" =
          "public enum " ++ typeIdent (s.decl id).name ++ (" : " ++ primitiveText type.primitive) := by
        rw [← String.append_assoc]
        rfl
      rw [hheader]
      exact Code.Opens.block_append _ _ _

/-- The class of a declaration keeps what is in the code of a declaration inside it. -/
theorem has_declCode
    {P : Code → Prop}
    {id : DeclId}
    (henum : ∀ type members, (s.decl id).body ≠ .enum type members)
    {made : List Code}
    {code : Code}
    (hmem : code ∈ made)
    (h : code.Has P) :
    (declCode s placement id made).Has P := by
  obtain ⟨before, own, hcode, -⟩ := exists_inside placement henum made
  rw [hcode]
  have hinner : Code.Has P (made.flatMap (Code.blank ++ ·)) :=
    Code.Has.flatMap (h.append_right Code.blank) hmem
  exact ((hinner.append_right own).block _).append_right before

/-- The class of a declaration holds those of its cases and those of the declarations inside it. -/
theorem nests_declCode
    {id : DeclId}
    (henum : ∀ type members, (s.decl id).body ≠ .enum type members)
    {made : List Code}
    (hmade : ∀ child ∈ s.childrenOf id, ∃ code ∈ made, Code.Opens (heading s (.decl child)) code)
    {y : Site}
    (hy : y ∈ inner s id) :
    Nests s id y (declCode s placement id made) := by
  obtain ⟨before, own, hcode, hcases⟩ := exists_inside placement henum made
  have hopens : Code.Opens (heading s y) (own ++ made.flatMap (Code.blank ++ ·)) := by
    cases y with
    | decl child =>
        obtain ⟨code, hmem, hchild⟩ := hmade child ((mem_inner_decl _ _).mp hy)
        exact (Code.Opens.flatMap (hchild.append_right Code.blank) hmem).append_right own
    | case outer c =>
        obtain ⟨rfl, hc⟩ := (mem_inner_case _ _ _).mp hy
        exact (hcases c hc).append_left _
  rw [hcode]
  exact Code.Has.append_right (Code.Has.whole ⟨_, rfl, hopens⟩) before

end Printed

section Resolved

variable {options : ResolveOptions}
variable {files : List SourceFile}
variable {s : Schema}
variable (h : Resolve.ResolvedFrom options files s)

include h

/-- The file of a root has the class of each type directly inside the class of the declaration around
it. -/
theorem nests_of_mem_inner
    (placement : Placement)
    {outer : DeclId}
    (houter : outer ∈ s.ids)
    {y : Site}
    (hy : y ∈ inner s outer) :
    Nests s outer y ((s.nesting (s.rootOf outer)).fold (declCode s placement)) := by
  have henum : ∀ id, s.childrenOf id ≠ [] →
      ∀ type members, (s.decl id).body ≠ .enum type members :=
    fun id hne type members hbody => hne (childrenOf_of_enum h hbody)
  refine (linked_of_resolvedFrom h).fold_nesting (fun id made hlength code hmem hnests => ?_)
    houter fun left => ?_
  · refine has_declCode placement (henum id fun hnil => ?_) hmem hnests
    rw [hnil, List.length_nil] at hlength
    rw [List.eq_nil_of_length_eq_zero hlength] at hmem
    cases hmem
  · rw [Schema.fold_nestingTo_succ]
    refine nests_declCode placement (fun type members hbody => ?_) (fun child hchild => ?_) hy
    · rw [inner, childrenOf_of_enum h hbody, Schema.cases, hbody] at hy
      cases hy
    · have hmade : ∃ made, (s.nestingTo left child).fold (declCode s placement) =
          declCode s placement child made := by
        cases left <;> exact ⟨_, rfl⟩
      obtain ⟨made, hcode⟩ := hmade
      refine ⟨_, List.mem_map_of_mem hchild, ?_⟩
      rw [hcode]
      exact opens_declCode placement child made

/-- In a root that is not refused, no declaration has the name of the one around it. -/
theorem name_ne_of_refusal?
    {outer child : DeclId}
    (houter : outer ∈ s.ids)
    (haccepted : refusal? s (s.rootOf outer) = none)
    (hchild : child ∈ s.childrenOf outer) :
    (s.decl child).name ≠ (s.decl outer).name := by
  have hs := linked_of_resolvedFrom h
  obtain ⟨hmem, hroot⟩ := hs.mem_ids_child houter hchild
  have hinside : child ∈ (s.nesting (s.rootOf outer)).preorder := by
    rw [Schema.nesting, s.mem_preorder_nestingTo, ← hroot]
    exact hs.mem_withDescendants_rootOf hmem
  have hfeature : feature? s child = none := by
    have hnone := List.findSome?_eq_none_iff.mp haccepted child hinside
    exact Option.map_eq_none_iff.mp hnone
  obtain ⟨index, hindex, rfl⟩ := List.mem_map.mp hchild
  have hparent := ((hs.forest_of_mem houter).parent_of_mem_children
    ((s.mem_ids_iff outer).mp houter).2 hindex).2
  intro hname
  have hlike : namedLikeParent s ⟨outer.package, index⟩ = true := by
    rw [namedLikeParent, Schema.decl, hparent]
    exact beq_iff_eq.mpr hname.symm
  rw [feature?, hlike] at hfeature
  cases hfeature

end Resolved
end CSharp
end Target

/-- When a class is nested in one of its identifier.  In a root that is not refused, the class of a
declaration has the class of each type directly inside it.  The two have one identifier exactly when
their names have the same words, although a nested declaration never has the name of the one around
it; of plain names this leaves a case with the name of its interface. -/
theorem resolve_nested_classes
    {options : ResolveOptions}
    {files : List SourceFile}
    {r : Resolved}
    (h : resolve options files = .ok r)
    {root : DeclId}
    (haccepted : Target.csharp.error? r.schema root = none)
    (placement : Placement) :
    ∃ code, Target.csharp.text r.schema placement root = Code.render "    " code ∧
      ∀ outer ∈ r.schema.ids, r.schema.rootOf outer = root → ∀ y ∈ Target.inner r.schema outer,
        Target.CSharp.Nests r.schema outer y code ∧
        (y.ident .csharp r.schema = Target.Site.ident .csharp r.schema (.decl outer) ↔
          Naming.SameWords (y.name r.schema) (r.schema.decl outer).name) ∧
        (∀ id, y = .decl id → y.name r.schema ≠ (r.schema.decl outer).name) ∧
        (Naming.isPlain (y.name r.schema) = true →
          Naming.isPlain (r.schema.decl outer).name = true →
          (y.ident .csharp r.schema = Target.Site.ident .csharp r.schema (.decl outer) ↔
            ∃ c, y = .case outer c ∧ c.name = (r.schema.decl outer).name)) := by
  have hresolved := Resolve.resolvedFrom_of_resolve h
  have hrefusal := Option.map_eq_none_iff.mp haccepted
  refine ⟨_, rfl, ?_⟩
  rintro outer houter rfl y hy
  have hident : y.ident .csharp r.schema = Target.Site.ident .csharp r.schema (.decl outer) ↔
      Naming.SameWords (y.name r.schema) (r.schema.decl outer).name :=
    Emit.typeIdent_eq_iff _ _ _
  have hdecl : ∀ id, y = .decl id → y.name r.schema ≠ (r.schema.decl outer).name := by
    rintro id rfl
    exact Target.CSharp.name_ne_of_refusal? hresolved houter hrefusal
      ((Target.mem_inner_decl _ _).mp hy)
  refine ⟨Target.CSharp.nests_of_mem_inner hresolved placement houter hy, hident, hdecl,
    fun hplain hplain' => ?_⟩
  rw [hident]
  constructor
  · intro hsame
    have hname := hsame.eq_of_isPlain hplain hplain'
    cases y with
    | decl id =>
        exact absurd hname (hdecl id rfl)
    | case id c =>
        obtain ⟨rfl, -⟩ := (Target.mem_inner_case _ _ _).mp hy
        exact ⟨c, rfl, hname⟩
  · rintro ⟨c, rfl, hname⟩
    rw [← hname]
    rfl

namespace Sample

/-- A file with an interface that has a case of its own name. -/
def echo : SourceFile :=
  { file := 0
    identity := ⟨⟨["foo"]⟩, none⟩
    tree :=
      { doc := []
        imports := []
        decls := [⟨[], [], ⟨"I", default⟩,
          .interface [] [⟨[], ⟨"I", default⟩, none, [], default⟩], default⟩] } }

/-- The schema of the interface. -/
def echoSchema : Schema :=
  ⟨[{ identity := ⟨⟨["foo"]⟩, none⟩
      ns := ⟨["foo"], none⟩
      doc := []
      decls := [⟨⟨0, 0⟩, "I", [], none, [],
        .interface ⟨[], [⟨"I", "I", [], [], default⟩], .tagged "type"⟩, default⟩]
      roots := [0] }]⟩

theorem resolve_echo :
    resolve options [echo] = .ok ⟨echoSchema, []⟩ := by
  with_unfolding_all rfl

end Sample

/-- The types inside the interface of shapes have other identifiers than the interface. -/
theorem resolve_nested_classes_shapes :
    resolve Sample.options [Sample.shapes] = .ok ⟨Sample.schema, []⟩ ∧
      Target.csharp.error? Sample.schema ⟨0, 0⟩ = none ∧
      Target.inner Sample.schema ⟨0, 0⟩ = [.decl ⟨0, 1⟩, Sample.pointSite, Sample.lineSite] ∧
      ∀ y ∈ Target.inner Sample.schema ⟨0, 0⟩,
        y.ident .csharp Sample.schema ≠
          Target.Site.ident .csharp Sample.schema (.decl ⟨0, 0⟩) := by
  have haccepted : Target.csharp.error? Sample.schema ⟨0, 0⟩ = none := by
    decide
  obtain ⟨code, -, hnested⟩ := resolve_nested_classes Sample.resolve_shapes haccepted .last
  refine ⟨Sample.resolve_shapes, haccepted, rfl, fun y hy => ?_⟩
  obtain ⟨-, -, -, hplain⟩ := hnested ⟨0, 0⟩ (by decide) rfl y hy
  have hnames : ∀ y ∈ Target.inner Sample.schema ⟨0, 0⟩,
      Naming.isPlain (y.name Sample.schema) = true ∧ y.name Sample.schema ≠ "Shape" := by
    have hinner : Target.inner Sample.schema ⟨0, 0⟩ =
        [.decl ⟨0, 1⟩, Sample.pointSite, Sample.lineSite] := rfl
    rw [hinner]
    simp only [List.forall_mem_cons]
    decide
  rw [ne_eq, hplain (hnames y hy).1 (by decide)]
  rintro ⟨c, rfl, hname⟩
  exact (hnames _ hy).2 hname

/-- A case with the name of its interface resolves and is not refused, and its class stands in a
class of the same identifier. -/
theorem exists_class_in_its_namesake :
    resolve Sample.options [Sample.echo] = .ok ⟨Sample.echoSchema, []⟩ ∧
      Target.csharp.error? Sample.echoSchema ⟨0, 0⟩ = none ∧
      ∃ y ∈ Target.inner Sample.echoSchema ⟨0, 0⟩,
        Target.CSharp.Nests Sample.echoSchema ⟨0, 0⟩ y
          ((Sample.echoSchema.nesting ⟨0, 0⟩).fold
            (Target.CSharp.declCode Sample.echoSchema .last)) ∧
        y.ident .csharp Sample.echoSchema =
          Target.Site.ident .csharp Sample.echoSchema (.decl ⟨0, 0⟩) := by
  have hresolved := Resolve.resolvedFrom_of_resolve Sample.resolve_echo
  have hcase : .case ⟨0, 0⟩ ⟨"I", "I", [], [], default⟩ ∈
      Target.inner Sample.echoSchema ⟨0, 0⟩ :=
    List.mem_singleton_self _
  refine ⟨Sample.resolve_echo, by decide, _, hcase, ?_, rfl⟩
  exact Target.CSharp.nests_of_mem_inner hresolved .last (by decide) hcase

end Schemata
