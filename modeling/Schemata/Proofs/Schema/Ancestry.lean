import Schemata.Proofs.Resolve.Arena

/-!
# From a declaration to its root

The chain of declarations around a declaration, read off from the forest that
the declarations of a package form: parents come before their children, so the
chain of a declaration is the declaration and the chain of its parent.

**Results.**
* `Package.IsForest.induction`: what holds of roots and goes from parents to
  children holds of all declarations.
* `Package.IsForest.parents_of_root`, `Package.IsForest.parents_of_child`.
* `Schema.Linked.declPath_eq_cons`: a path begins with the name of the root.
* `childrenOf_of_enum`: an enum has nothing inside.
-/

namespace Schemata

namespace Schema

variable (s : Schema)

theorem getElem?_package
    {index : Nat}
    (h : index < s.packages.length) :
    s.packages[index]? = some (s.package index) := by
  rw [package, List.getElem?_eq_getElem h, Option.getD_some]

theorem package_mem
    {index : Nat}
    (h : index < s.packages.length) :
    s.package index ∈ s.packages :=
  List.mem_of_getElem? (s.getElem?_package h)

theorem mem_ids_iff
    (id : DeclId) :
    id ∈ s.ids ↔ id.package < s.packages.length ∧
      id.index < (s.package id.package).decls.length := by
  simp only [ids, idsOf, List.mem_flatMap, List.mem_map, List.mem_range]
  constructor
  · rintro ⟨package, hpackage, index, hindex, rfl⟩
    exact ⟨hpackage, hindex⟩
  · rintro ⟨hpackage, hindex⟩
    exact ⟨id.package, hpackage, id.index, hindex, rfl⟩

end Schema

namespace Package

theorem getElem?_decl
    (p : Package)
    {index : Nat}
    (h : index < p.decls.length) :
    p.decls[index]? = some (p.decl index) := by
  rw [decl, List.getElem?_eq_getElem h, Option.getD_some]

theorem exists_parents_eq_cons
    (p : Package)
    {index : Nat}
    (h : index < p.decls.length) :
    ∃ above, p.parents index = index :: above := by
  obtain ⟨n, hn⟩ := Nat.exists_eq_succ_of_ne_zero (Nat.ne_zero_of_lt h)
  rw [parents, hn, enclosing]
  exact ⟨_, rfl⟩

namespace IsForest

variable {package : Nat}
variable {p : Package}
variable (hp : p.IsForest package)

include hp

theorem lt_of_mem_roots
    {index : Nat}
    (h : index ∈ p.roots) :
    index < p.decls.length := by
  obtain ⟨d, hd, -⟩ := (hp.roots index).mp h
  exact (List.getElem?_eq_some_iff.mp hd).1

theorem parent_of_mem_roots
    {index : Nat}
    (h : index ∈ p.roots) :
    (p.decl index).parent = none := by
  obtain ⟨d, hd, hparent⟩ := (hp.roots index).mp h
  rw [decl, hd]
  exact hparent

theorem parent_of_mem_children
    {index outer : Nat}
    (houter : outer < p.decls.length)
    (h : index ∈ (p.decl outer).children) :
    index < p.decls.length ∧ (p.decl index).parent = some outer := by
  obtain ⟨d, hd, hparent⟩ := (hp.children outer _ (p.getElem?_decl houter) index).mp h
  rw [decl, hd]
  exact ⟨(List.getElem?_eq_some_iff.mp hd).1, hparent⟩

/-- A parent comes before its children, and they are among its children. -/
theorem mem_children_of_parent
    {index outer : Nat}
    (h : (p.decl index).parent = some outer) :
    outer < index ∧ outer < p.decls.length ∧ index ∈ (p.decl outer).children := by
  cases hd : p.decls[index]? with
  | none =>
      rw [decl, hd] at h
      cases h
  | some d =>
      have hlt := (List.getElem?_eq_some_iff.mp hd).1
      have hlisted := hp.once.mem_iff.mpr (List.mem_range.mpr hlt)
      rcases List.mem_append.mp hlisted with hroot | hchild
      · rw [hp.parent_of_mem_roots hroot] at h
        cases h
      · obtain ⟨e, he, hmem⟩ := List.mem_flatMap.mp hchild
        obtain ⟨i, hi⟩ := List.getElem?_of_mem he
        obtain ⟨hi', rfl⟩ := List.getElem?_eq_some_iff.mp hi
        have hbefore := hp.before i _ hi index hmem
        have hei : p.decl i = p.decls[i] := by
          rw [decl, hi, Option.getD_some]
        obtain ⟨-, hparent⟩ := hp.parent_of_mem_children hi' (hei ▸ hmem)
        obtain rfl := Option.some.inj (hparent.symm.trans h)
        exact ⟨hbefore, hi', hei ▸ hmem⟩

/-- What holds of the roots and goes from parents to children holds of all declarations. -/
theorem induction
    {motive : Nat → Prop}
    (root : ∀ index ∈ p.roots, motive index)
    (child : ∀ outer < p.decls.length, ∀ index ∈ (p.decl outer).children,
      motive outer → motive index)
    {index : Nat}
    (h : index < p.decls.length) :
    motive index := by
  induction index using Nat.strongRecOn with
  | ind index ih =>
      cases hparent : (p.decl index).parent with
      | none => exact root index ((hp.roots index).mpr ⟨_, p.getElem?_decl h, hparent⟩)
      | some outer =>
          obtain ⟨hlt, houter, hmem⟩ := hp.mem_children_of_parent hparent
          exact child outer houter index hmem (ih outer hlt houter)

theorem parents_of_root
    {index : Nat}
    (h : index ∈ p.roots) :
    p.parents index = [index] := by
  rw [parents, enclosing_eq (fun i outer hi => (hp.mem_children_of_parent hi).1)
    (hp.lt_of_mem_roots h), hp.parent_of_mem_roots h]

theorem parents_of_child
    {index outer : Nat}
    (houter : outer < p.decls.length)
    (h : index ∈ (p.decl outer).children) :
    p.parents index = index :: p.parents outer := by
  obtain ⟨hlt, hparent⟩ := hp.parent_of_mem_children houter h
  rw [parents, enclosing_eq (fun i outer hi => (hp.mem_children_of_parent hi).1) hlt, hparent]
  rfl

end IsForest
end Package

namespace Schema.Linked

variable {s : Schema}
variable (hs : s.Linked)

include hs

theorem forest_of_mem
    {id : DeclId}
    (hid : id ∈ s.ids) :
    (s.package id.package).IsForest id.package :=
  hs.forest _ _ (s.getElem?_package ((s.mem_ids_iff id).mp hid).1)

theorem mem_ids_of_mem_rootsOf
    {package : Nat}
    (hpackage : package < s.packages.length)
    {id : DeclId}
    (hid : id ∈ s.rootsOf package) :
    id ∈ s.ids := by
  obtain ⟨index, hindex, rfl⟩ := List.mem_map.mp hid
  have hforest := hs.forest _ _ (s.getElem?_package hpackage)
  exact (s.mem_ids_iff _).mpr ⟨hpackage, hforest.lt_of_mem_roots hindex⟩

/-- A path begins with the name of the root. -/
theorem declPath_eq_cons
    {id : DeclId}
    (hid : id ∈ s.ids) :
    ∃ rest, s.declPath id = (s.decl (s.rootOf id)).name :: rest := by
  obtain ⟨above, -, hpath, hlast⟩ := hs.climbs id hid
  obtain ⟨inner, rfl⟩ := List.getLast?_eq_some_iff.mp hlast
  refine ⟨(inner.map fun i => (s.decl ⟨id.package, i⟩).name).reverse, ?_⟩
  rw [hpath, List.map_append, List.reverse_append]
  rfl

end Schema.Linked

theorem Convert.nested_of_enum
    {ctx : Convert.Context}
    {d : Tree.Decl}
    {type : EnumType}
    {members : List EnumMember}
    (h : (Convert.body ctx d).value = .enum type members) :
    d.body.nested = [] := by
  cases hbody : d.body with
  | type members =>
      rw [(Convert.body_type ctx hbody).1] at h
      cases h
  | tuple members =>
      rw [(Convert.body_tuple ctx hbody).1] at h
      cases h
  | interface members cases =>
      rw [(Convert.body_interface ctx hbody).1] at h
      cases h
  | enum written members =>
      rfl
  | service written decls =>
      rw [(Convert.body_service ctx hbody).1] at h
      cases h

/-- Enums have no declarations inside. -/
theorem childrenOf_of_enum
    {options : ResolveOptions}
    {files : List SourceFile}
    {s : Schema}
    (h : Resolve.ResolvedFrom options files s)
    {id : DeclId}
    {type : EnumType}
    {members : List EnumMember}
    (henum : (s.decl id).body = .enum type members) :
    s.childrenOf id = [] := by
  have hid : id ∈ s.ids := by
    by_contra hnot
    rw [Schema.decl_eq_absent hnot] at henum
    cases henum
  obtain ⟨hpackage, hindex⟩ := (s.mem_ids_iff id).mp hid
  obtain ⟨f, hf, -, hdecls⟩ := h.exists_file (s.getElem?_package hpackage)
  obtain ⟨e, he, hdecl⟩ := Option.map_eq_some_iff.mp
    ((hdecls id.index).symm.trans (Package.getElem?_decl _ hindex))
  have hdecl : _ = s.decl id := hdecl
  rw [← hdecl] at henum
  have hinside := (Reference.mirrors_of_file h hf).children _ e he
  rw [Convert.nested_of_enum henum] at hinside
  have hnone : e.children = [] := List.map_eq_nil_iff.mp hinside
  rw [Schema.childrenOf, ← hdecl]
  exact List.map_eq_nil_iff.mpr hnone

end Schemata
