import Schemata.Proofs.Schema.Descendants
import Schemata.Proofs.Target.Comment

/-!
# Each declaration is written once

A backend writes an outermost declaration with all that is inside it.  Where
code of a declaration is put around that of those inside it, and where it is put
beside it, the lines of the whole are the lines of each of the declarations,
once each.  The order differs from target to target: what is inside is written
inside in C#, and level by level in JavaScript; Swift does both, one after the
other.  So lines are compared up to their order, and without indentation.

**Results.**
* `Target.Renderer.texts_code_perm`: the lines of an outermost declaration.
* `resolve_withDescendants`: what is listed for a declaration, and that the lists of the outermost
  declarations account for all that is written.
-/

namespace Schemata

namespace Code

mutual

/-- The lines of a part of code, without indentation. -/
def itemTexts : CodeItem → List String
  | .line text => [text]
  | .blank => []
  | .indented items => texts items

/-- The lines of code, without indentation. -/
def texts : List CodeItem → List String
  | [] => []
  | item :: rest => itemTexts item ++ texts rest

end

section Texts

@[simp] theorem texts_nil :
    texts [] = [] := by
  rw [texts]

@[simp] theorem texts_append
    (before after : Code) :
    texts (before ++ after) = texts before ++ texts after := by
  induction before with
  | nil =>
      rw [List.nil_append, texts_nil, List.nil_append]
  | cons item before ih =>
      rw [List.cons_append, texts, texts, ih, List.append_assoc]

@[simp] theorem texts_blank :
    texts blank = [] := by
  rw [blank, texts, itemTexts, texts_nil, List.append_nil]

@[simp] theorem texts_line
    (text : String) :
    texts (line text) = [text] := by
  rw [line, texts, itemTexts, texts_nil, List.append_nil]

@[simp] theorem texts_indented
    (body : Code) :
    texts (indented body) = texts body := by
  rw [indented, texts, itemTexts, texts_nil, List.append_nil]

theorem texts_flatMap
    {α : Type}
    (f : α → Code)
    (as : List α) :
    texts (as.flatMap f) = as.flatMap fun a => texts (f a) := by
  induction as with
  | nil =>
      exact texts_nil
  | cons a as ih =>
      rw [List.flatMap_cons, texts_append, ih, List.flatMap_cons]

/-- Codes with blank lines before them. -/
theorem texts_blanked
    (made : List Code) :
    texts (made.flatMap (blank ++ ·)) = made.flatMap texts := by
  simp only [texts_flatMap, texts_append, texts_blank, List.nil_append]

/-- Codes that are added at the end of a block. -/
theorem texts_block_perm
    (before own : Code)
    (header : String)
    (made : List Code) :
    (texts (before ++ block header (own ++ made.flatMap (blank ++ ·)))).Perm
      (texts (before ++ block header own) ++ made.flatMap texts) := by
  simp only [block, blockEnding, texts_append, texts_line, texts_indented, texts_blanked,
    List.append_assoc]
  exact ((List.perm_append_comm.append_left _).append_left _).append_left _

end Texts

end Code

namespace Target

open Code

/-- A writer, with the code that a declaration has apart from what is inside it. -/
structure Renderer where
  writer : Writer
  own : Schema → Placement → DeclId → Code

/-- The writers of all backends, with the code of single declarations. -/
def renderers : List Renderer :=
  [⟨csharpWriter, fun s placement id => CSharp.declCode s placement id []⟩,
   ⟨swiftWriter, fun s _ id => Swift.definition s id [] ++ Swift.extensions s id⟩,
   ⟨javascriptWriter, JavaScript.declCode⟩]

theorem map_backend_renderers :
    renderers.map (·.writer.backend) = all :=
  rfl

section Declarations

variable {s : Schema}
variable {id : DeclId}
variable {made : List Code}
variable (henum : ∀ type members, (s.decl id).body = .enum type members → made = [])
include henum

/-- The code of a C# declaration has its own lines and those of the declarations inside it. -/
theorem CSharp.texts_declCode_perm
    (placement : Placement) :
    (texts (CSharp.declCode s placement id made)).Perm
      (texts (CSharp.declCode s placement id []) ++ made.flatMap texts) := by
  cases hbody : (s.decl id).body with
  | type fields | tuple fields =>
      simp only [CSharp.declCode, hbody, List.flatMap_nil, List.append_nil]
      rw [← List.append_assoc, ← List.append_assoc]
      exact texts_block_perm _ _ _ _
  | interface body =>
      cases hstrategy : body.strategy
      all_goals
        simp only [CSharp.declCode, hbody, hstrategy, List.flatMap_nil, List.append_nil]
        rw [← List.append_assoc, ← List.append_assoc]
        exact texts_block_perm _ _ _ _
  | enum type members =>
      rw [henum type members hbody, List.flatMap_nil, List.append_nil]
  | service endpoints =>
      simp only [CSharp.declCode, hbody, List.flatMap_nil, List.append_nil]
      exact texts_block_perm _ _ _ _

/-- The definition of a Swift declaration has its own lines and those of the declarations inside
it. -/
theorem Swift.texts_definition_perm :
    (texts (Swift.definition s id made)).Perm
      (texts (Swift.definition s id []) ++ made.flatMap texts) := by
  cases hbody : (s.decl id).body with
  | type fields | tuple fields | interface body =>
      simp only [Swift.definition, hbody, List.flatMap_nil, List.append_nil]
      exact texts_block_perm _ _ _ _
  | enum type members =>
      rw [henum type members hbody, List.flatMap_nil, List.append_nil]
  | service endpoints =>
      simp only [Swift.definition, hbody, List.flatMap_nil, List.append_nil]
      rw [← List.append_assoc, texts_append, texts_blanked]

end Declarations

/-- Folding that puts the lines of a declaration and those of what is inside it together gives the
lines of each declaration of the tree. -/
theorem texts_fold_perm
    {s : Schema}
    {f : DeclId → List Code → Code}
    (hf : ∀ id made, made.length = (s.childrenOf id).length →
      (texts (f id made)).Perm (texts (f id []) ++ made.flatMap texts))
    (depth : Nat)
    (id : DeclId) :
    (texts ((s.nestingTo depth id).fold f)).Perm
      ((s.nestingTo depth id).levelOrder.flatMap fun x => texts (f x [])) := by
  refine List.Perm.trans ?_ ((s.preorder_nestingTo_perm depth id).flatMap_right _)
  induction depth generalizing id with
  | zero =>
      have hcode : (s.nestingTo 0 id).fold f = f id [] := rfl
      have hlisted : (s.nestingTo 0 id).preorder = [id] := rfl
      rw [hcode, hlisted, List.flatMap_singleton]
  | succ depth ih =>
      rw [Schema.fold_nestingTo_succ, Schema.nestingTo, Nesting.preorder_node, List.flatMap_cons,
        List.flatMap_map, List.flatMap_assoc]
      refine (hf id _ (List.length_map _)).trans (List.Perm.append_left _ ?_)
      rw [List.flatMap_map]
      exact List.Perm.flatMap_left _ fun child _ => ih child

section Resolved

variable {options : ResolveOptions}
variable {files : List SourceFile}
variable {s : Schema}
variable (h : Resolve.ResolvedFrom options files s)
include h

/-- The lines of an outermost declaration are those of the declarations inside it, each once. -/
theorem Renderer.texts_code_perm
    {w : Renderer}
    (hw : w ∈ renderers)
    (placement : Placement)
    (root : DeclId) :
    (texts (w.writer.code s placement root)).Perm
      ((s.withDescendants root).flatMap fun id => texts (w.own s placement id)) := by
  -- an enum has nothing inside
  have henum : ∀ id (made : List Code), made.length = (s.childrenOf id).length →
      ∀ type members, (s.decl id).body = .enum type members → made = [] := by
    intro id made hlength type members hbody
    rw [childrenOf_of_enum h hbody] at hlength
    exact List.eq_nil_of_length_eq_zero hlength
  simp only [renderers, List.mem_cons, List.not_mem_nil, or_false] at hw
  rcases hw with rfl | rfl | rfl
  · exact texts_fold_perm
      (fun id made hlength => CSharp.texts_declCode_perm (henum id made hlength) placement) _ root
  · have hdefinitions := texts_fold_perm (f := Swift.definition s)
      (fun id made hlength => Swift.texts_definition_perm (henum id made hlength))
      (s.package root.package).decls.length root
    simp only [swiftWriter, Swift.declCode, texts_append, texts_flatMap]
    exact (hdefinitions.append_right _).trans (List.flatMap_append_perm _ _ _)
  · simp only [javascriptWriter, texts_flatMap]
    exact .refl _

/-- The lines of the outermost declarations of a package are those of its declarations, each
once. -/
theorem Renderer.texts_package_perm
    {w : Renderer}
    (hw : w ∈ renderers)
    (placement : Placement)
    {package : Nat}
    (hpackage : package < s.packages.length) :
    ((s.rootsOf package).flatMap fun root => texts (w.writer.code s placement root)).Perm
      ((s.idsOf package).flatMap fun id => texts (w.own s placement id)) := by
  have hroots := List.Perm.flatMap_left (s.rootsOf package) fun root _ =>
    texts_code_perm h hw placement root
  rw [← List.flatMap_assoc] at hroots
  exact hroots.trans
    (((linked_of_resolvedFrom h).flatMap_withDescendants_perm hpackage).flatMap_right _)

end Resolved

end Target

/-- What is listed for a declaration.  The loop ends with the list of the model, which has each
declaration that is the first or inside it at any depth, once; each stands before its children, and
these in their order.  The lists of the outermost declarations of a package have nothing in common
and together hold its declarations.  So each backend writes the lines of each declaration once: the
code of an outermost declaration has those of the declarations in its list, and the code of those of
a package has those of all its declarations. -/
theorem resolve_withDescendants
    {options : ResolveOptions}
    {files : List SourceFile}
    {r : Resolved}
    (h : resolve options files = .ok r) :
    (∀ id ∈ r.schema.ids,
      (∀ listed, r.schema.Extends [id] 0 listed ↔ listed = r.schema.withDescendants id) ∧
      (r.schema.withDescendants id).Nodup ∧
      (∀ x, x ∈ r.schema.withDescendants id ↔ r.schema.Encloses id x) ∧
      ∀ x ∈ r.schema.withDescendants id,
        (x :: r.schema.childrenOf x).Sublist (r.schema.withDescendants id)) ∧
    ∀ package < r.schema.packages.length,
      ((r.schema.rootsOf package).Pairwise fun root root' =>
        List.Disjoint (r.schema.withDescendants root) (r.schema.withDescendants root')) ∧
      ((r.schema.rootsOf package).flatMap r.schema.withDescendants).Perm
        (r.schema.idsOf package) ∧
      ∀ w ∈ Target.renderers, ∀ placement,
        (∀ root ∈ r.schema.rootsOf package,
          w.writer.backend.text r.schema placement root =
            Code.render w.writer.unit (w.writer.code r.schema placement root) ∧
          (Code.texts (w.writer.code r.schema placement root)).Perm
            ((r.schema.withDescendants root).flatMap fun id =>
              Code.texts (w.own r.schema placement id))) ∧
        ((r.schema.rootsOf package).flatMap fun root =>
          Code.texts (w.writer.code r.schema placement root)).Perm
            ((r.schema.idsOf package).flatMap fun id =>
              Code.texts (w.own r.schema placement id)) := by
  have hresolved := Resolve.resolvedFrom_of_resolve h
  have hs := linked_of_resolvedFrom hresolved
  refine ⟨fun id hid => ⟨hs.extends_iff hid, (hs.traversed_withDescendants hid).nodup,
    hs.mem_withDescendants_iff_encloses hid, fun x hx => hs.cons_childrenOf_sublist hid hx⟩,
    fun package hpackage => ⟨hs.pairwise_disjoint_withDescendants hpackage,
      hs.flatMap_withDescendants_perm hpackage, fun w hw placement => ⟨fun root _ => ⟨?_, ?_⟩, ?_⟩⟩⟩
  · exact w.writer.text_eq _ _ _
  · exact Target.Renderer.texts_code_perm hresolved hw placement root
  · exact Target.Renderer.texts_package_perm hresolved hw placement hpackage

/-- The interface of shapes and the enum inside it: the loop has listed them after two rounds, and
the C# code of the interface has the lines of both. -/
theorem resolve_withDescendants_shapes :
    resolve Sample.options [Sample.shapes] = .ok ⟨Sample.schema, []⟩ ∧
      Sample.schema.Extends [⟨0, 0⟩] 0 [⟨0, 0⟩, ⟨0, 1⟩] ∧
      (Code.texts (Target.csharpWriter.code Sample.schema .last ⟨0, 0⟩)).Perm
        (Code.texts (Target.CSharp.declCode Sample.schema .last ⟨0, 0⟩ []) ++
          Code.texts (Target.CSharp.declCode Sample.schema .last ⟨0, 1⟩ [])) := by
  obtain ⟨hlists, hpackages⟩ := resolve_withDescendants Sample.resolve_shapes
  obtain ⟨hloop, -⟩ := hlists ⟨0, 0⟩ (by decide)
  obtain ⟨-, -, hwritten⟩ := hpackages 0 (by decide)
  obtain ⟨hroots, -⟩ := hwritten _ (List.mem_cons_self (l := _)) .last
  have hlisted : Sample.schema.withDescendants ⟨0, 0⟩ = [⟨0, 0⟩, ⟨0, 1⟩] := rfl
  have hlines := (hroots ⟨0, 0⟩ (by decide)).2
  rw [hlisted, List.flatMap_cons, List.flatMap_singleton] at hlines
  exact ⟨Sample.resolve_shapes, (hloop _).mpr hlisted.symm, hlines⟩

end Schemata
