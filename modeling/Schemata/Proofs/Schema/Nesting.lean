import Schemata.Proofs.Schema.Ancestry
import Schemata.Schema.Nesting

/-!
# The declarations around and inside a declaration

The tree of a declaration is cut at a depth.  Each step from a parent to a
child needs one more level, and a parent comes before its children, so that no
declaration is deeper than its index: the tree of a root has all declarations
that have this root.

**Results.**
* `Nesting.mem_levelOrder_node`: the declarations of a tree.
* `Schema.mem_preorder_nestingTo`: both orders have the same declarations.
* `Schema.Linked.fold_nesting`: what folding makes of a declaration is kept in what it makes of the
  tree of its root.
* `Schema.Linked.mem_withDescendants_rootOf`: a declaration is inside its root.
* `Schema.Linked.mem_withDescendants_iff`: inside a root are the declarations that have this root.
-/

namespace Schemata

namespace Nesting

section Levels

variable {α : Type}

theorem mem_joinLevels
    (as bs : List (List α))
    (x : α) :
    x ∈ (joinLevels as bs).flatten ↔ x ∈ as.flatten ∨ x ∈ bs.flatten := by
  fun_induction joinLevels as bs with
  | case1 bs =>
      simp
  | case2 as =>
      simp
  | case3 a as b bs ih =>
      simp only [List.flatten_cons, List.mem_append, ih]
      grind

theorem mem_foldr_joinLevels
    (trees : List (List (List α)))
    (x : α) :
    x ∈ (trees.foldr joinLevels []).flatten ↔ ∃ levels ∈ trees, x ∈ levels.flatten := by
  induction trees with
  | nil =>
      simp
  | cons levels trees ih =>
      rw [List.foldr_cons, mem_joinLevels, ih, List.exists_mem_cons_iff]

theorem foldAll_eq_map
    (f : DeclId → List α → α)
    (ns : List Nesting) :
    foldAll f ns = ns.map (fold f) := by
  induction ns with
  | nil => rfl
  | cons n ns ih => rw [foldAll, ih, List.map_cons]

end Levels

theorem levels_node
    (id : DeclId)
    (inner : List Nesting) :
    (node id inner).levels = [id] :: (inner.map levels).foldr joinLevels [] := by
  rw [levels, fold, foldAll_eq_map]
  rfl

theorem preorder_node
    (id : DeclId)
    (inner : List Nesting) :
    (node id inner).preorder = id :: inner.flatMap preorder := by
  rw [preorder, fold, foldAll_eq_map, List.flatMap_def]
  rfl

theorem mem_preorder_node
    (id x : DeclId)
    (inner : List Nesting) :
    x ∈ (node id inner).preorder ↔ x = id ∨ ∃ n ∈ inner, x ∈ n.preorder := by
  rw [preorder_node, List.mem_cons, List.mem_flatMap]

/-- A tree has its own declaration and those of the trees inside it. -/
theorem mem_levelOrder_node
    (id x : DeclId)
    (inner : List Nesting) :
    x ∈ (node id inner).levelOrder ↔ x = id ∨ ∃ n ∈ inner, x ∈ n.levelOrder := by
  rw [levelOrder, levels_node, List.flatten_cons, List.singleton_append, List.mem_cons,
    mem_foldr_joinLevels]
  simp [levelOrder]

end Nesting

namespace Schema

section Depth

variable (s : Schema)

theorem mem_nestingTo_succ
    (depth : Nat)
    (id x : DeclId) :
    x ∈ (s.nestingTo (depth + 1) id).levelOrder ↔
      x = id ∨ ∃ child ∈ s.childrenOf id, x ∈ (s.nestingTo depth child).levelOrder := by
  rw [nestingTo, Nesting.mem_levelOrder_node]
  simp

theorem mem_preorder_nestingTo
    (depth : Nat)
    (id x : DeclId) :
    x ∈ (s.nestingTo depth id).preorder ↔ x ∈ (s.nestingTo depth id).levelOrder := by
  induction depth generalizing id with
  | zero =>
      rw [nestingTo, Nesting.mem_preorder_node, Nesting.mem_levelOrder_node]
      simp
  | succ depth ih =>
      rw [mem_nestingTo_succ, nestingTo, Nesting.mem_preorder_node]
      simp [ih]

theorem mem_nestingTo_self
    (depth : Nat)
    (id : DeclId) :
    id ∈ (s.nestingTo depth id).levelOrder := by
  cases depth with
  | zero => exact (Nesting.mem_levelOrder_node id id []).mpr (.inl rfl)
  | succ depth => exact (s.mem_nestingTo_succ depth id id).mpr (.inl rfl)

theorem mem_nestingTo_mono
    {depth deeper : Nat}
    (hle : depth ≤ deeper)
    {id x : DeclId}
    (hx : x ∈ (s.nestingTo depth id).levelOrder) :
    x ∈ (s.nestingTo deeper id).levelOrder := by
  induction depth generalizing deeper id with
  | zero =>
      rcases (Nesting.mem_levelOrder_node id x []).mp hx with rfl | ⟨n, hn, -⟩
      · exact s.mem_nestingTo_self deeper x
      · cases hn
  | succ depth ih =>
      obtain ⟨deeper, rfl⟩ := Nat.exists_eq_succ_of_ne_zero (Nat.ne_zero_of_lt hle)
      rw [mem_nestingTo_succ] at hx ⊢
      refine hx.imp_right ?_
      rintro ⟨child, hchild, hx⟩
      exact ⟨child, hchild, ih (Nat.le_of_succ_le_succ hle) hx⟩

/-- A child of a declaration is one level deeper. -/
theorem mem_nestingTo_child
    {depth : Nat}
    {id x child : DeclId}
    (hx : x ∈ (s.nestingTo depth id).levelOrder)
    (hchild : child ∈ s.childrenOf x) :
    child ∈ (s.nestingTo (depth + 1) id).levelOrder := by
  induction depth generalizing id with
  | zero =>
      rcases (Nesting.mem_levelOrder_node id x []).mp hx with rfl | ⟨n, hn, -⟩
      · exact (s.mem_nestingTo_succ 0 x child).mpr
          (.inr ⟨child, hchild, s.mem_nestingTo_self 0 child⟩)
      · cases hn
  | succ depth ih =>
      rcases (s.mem_nestingTo_succ depth id x).mp hx with rfl | ⟨c, hc, hx⟩
      · exact (s.mem_nestingTo_succ (depth + 1) x child).mpr
          (.inr ⟨child, hchild, s.mem_nestingTo_self (depth + 1) child⟩)
      · exact (s.mem_nestingTo_succ (depth + 1) id child).mpr (.inr ⟨c, hc, ih hx⟩)

theorem fold_nestingTo_succ
    {α : Type}
    (f : DeclId → List α → α)
    (depth : Nat)
    (id : DeclId) :
    (s.nestingTo (depth + 1) id).fold f =
      f id ((s.childrenOf id).map fun child => (s.nestingTo depth child).fold f) := by
  rw [nestingTo, Nesting.fold, Nesting.foldAll_eq_map, List.map_map]
  rfl

/-- Where folding keeps a property of what it has made of a child, it keeps what it has made of a
declaration of the tree, if there is a level left for what is inside it. -/
theorem fold_nestingTo
    {α : Type}
    {f : DeclId → List α → α}
    {P : α → Prop}
    (hkeep : ∀ id made, made.length = (s.childrenOf id).length → ∀ a ∈ made, P a → P (f id made))
    {depth : Nat}
    {id x : DeclId}
    (hx : x ∈ (s.nestingTo depth id).levelOrder)
    (hmade : ∀ left, P ((s.nestingTo (left + 1) x).fold f)) :
    P ((s.nestingTo (depth + 1) id).fold f) := by
  induction depth generalizing id with
  | zero =>
      rcases (Nesting.mem_levelOrder_node id x []).mp hx with rfl | ⟨n, hn, -⟩
      · exact hmade 0
      · cases hn
  | succ depth ih =>
      rcases (s.mem_nestingTo_succ depth id x).mp hx with rfl | ⟨child, hchild, hx⟩
      · exact hmade (depth + 1)
      · rw [fold_nestingTo_succ]
        exact hkeep id _ (List.length_map _) _ (List.mem_map_of_mem hchild) (ih hx)

end Depth

namespace Linked

variable {s : Schema}
variable (hs : s.Linked)

include hs

theorem rootOf_of_mem_roots
    {package index : Nat}
    (hpackage : package < s.packages.length)
    (h : index ∈ (s.package package).roots) :
    s.rootOf ⟨package, index⟩ = ⟨package, index⟩ := by
  rw [Schema.rootOf, (hs.forest _ _ (s.getElem?_package hpackage)).parents_of_root h]
  rfl

theorem rootOf_rootOf
    {id : DeclId}
    (hid : id ∈ s.ids) :
    s.rootOf (s.rootOf id) = s.rootOf id := by
  obtain ⟨index, hindex, heq⟩ := List.mem_map.mp (hs.rootOf id hid)
  rw [← heq]
  exact hs.rootOf_of_mem_roots ((s.mem_ids_iff id).mp hid).1 hindex

theorem rootOf_child
    {package outer index : Nat}
    (houter : ⟨package, outer⟩ ∈ s.ids)
    (h : index ∈ ((s.package package).decl outer).children) :
    s.rootOf ⟨package, index⟩ = s.rootOf ⟨package, outer⟩ := by
  have hlt := ((s.mem_ids_iff _).mp houter).2
  obtain ⟨above, habove⟩ := (s.package package).exists_parents_eq_cons hlt
  rw [Schema.rootOf, Schema.rootOf, (hs.forest_of_mem houter).parents_of_child hlt h, habove]
  rfl

/-- A declaration is no deeper in its root than its index. -/
theorem mem_nestingTo_rootOf
    {id : DeclId}
    (hid : id ∈ s.ids) :
    id ∈ (s.nestingTo id.index (s.rootOf id)).levelOrder := by
  obtain ⟨package, index⟩ := id
  obtain ⟨hpackage, hindex⟩ := (s.mem_ids_iff _).mp hid
  have hforest := hs.forest_of_mem hid
  refine hforest.induction (motive := fun index =>
    ⟨package, index⟩ ∈ (s.nestingTo index (s.rootOf ⟨package, index⟩)).levelOrder)
    (fun index hroot => ?_) (fun outer houter index hchild ih => ?_) hindex
  · rw [hs.rootOf_of_mem_roots hpackage hroot]
    exact s.mem_nestingTo_self index _
  · have hlt := (hforest.mem_children_of_parent
      (hforest.parent_of_mem_children houter hchild).2).1
    rw [hs.rootOf_child ((s.mem_ids_iff ⟨package, outer⟩).mpr ⟨hpackage, houter⟩) hchild]
    exact s.mem_nestingTo_mono hlt
      (s.mem_nestingTo_child ih (List.mem_map_of_mem hchild))

/-- A declaration is among those inside its root. -/
theorem mem_withDescendants_rootOf
    {id : DeclId}
    (hid : id ∈ s.ids) :
    id ∈ s.withDescendants (s.rootOf id) :=
  s.mem_nestingTo_mono (Nat.le_of_lt ((s.mem_ids_iff id).mp hid).2) (hs.mem_nestingTo_rootOf hid)

/-- What folding makes of a declaration is kept in what it makes of the tree of its root. -/
theorem fold_nesting
    {α : Type}
    {f : DeclId → List α → α}
    {P : α → Prop}
    (hkeep : ∀ id made, made.length = (s.childrenOf id).length → ∀ a ∈ made, P a → P (f id made))
    {id : DeclId}
    (hid : id ∈ s.ids)
    (hmade : ∀ left, P ((s.nestingTo (left + 1) id).fold f)) :
    P ((s.nesting (s.rootOf id)).fold f) := by
  have hlt := ((s.mem_ids_iff id).mp hid).2
  obtain ⟨depth, hdepth⟩ := Nat.exists_eq_succ_of_ne_zero (Nat.ne_zero_of_lt hlt)
  have hle : id.index ≤ depth := by
    rw [hdepth] at hlt
    exact Nat.le_of_lt_succ hlt
  have htree : s.nesting (s.rootOf id) = s.nestingTo (depth + 1) (s.rootOf id) := by
    rw [Schema.nesting, Schema.rootOf, hdepth]
  rw [htree]
  exact s.fold_nestingTo hkeep (s.mem_nestingTo_mono hle (hs.mem_nestingTo_rootOf hid)) hmade

theorem mem_ids_child
    {id child : DeclId}
    (hid : id ∈ s.ids)
    (hchild : child ∈ s.childrenOf id) :
    child ∈ s.ids ∧ s.rootOf child = s.rootOf id := by
  obtain ⟨index, hindex, rfl⟩ := List.mem_map.mp hchild
  obtain ⟨hpackage, hlt⟩ := (s.mem_ids_iff id).mp hid
  have hinside := (hs.forest_of_mem hid).parent_of_mem_children hlt hindex
  exact ⟨(s.mem_ids_iff _).mpr ⟨hpackage, hinside.1⟩, hs.rootOf_child hid hindex⟩

/-- What is inside a declaration is a declaration with the same root. -/
theorem rootOf_of_mem_nestingTo
    {depth : Nat}
    {id x : DeclId}
    (hid : id ∈ s.ids)
    (hx : x ∈ (s.nestingTo depth id).levelOrder) :
    x ∈ s.ids ∧ s.rootOf x = s.rootOf id := by
  induction depth generalizing id with
  | zero =>
      rcases (Nesting.mem_levelOrder_node id x []).mp hx with rfl | ⟨n, hn, -⟩
      · exact ⟨hid, rfl⟩
      · cases hn
  | succ depth ih =>
      rcases (s.mem_nestingTo_succ depth id x).mp hx with rfl | ⟨child, hchild, hx⟩
      · exact ⟨hid, rfl⟩
      · obtain ⟨hmem, hroot⟩ := hs.mem_ids_child hid hchild
        rw [← hroot]
        exact ih hmem hx

/-- The declarations inside a root are those that have this root. -/
theorem mem_withDescendants_iff
    {package : Nat}
    (hpackage : package < s.packages.length)
    {root : DeclId}
    (hroot : root ∈ s.rootsOf package)
    (id : DeclId) :
    id ∈ s.withDescendants root ↔ id ∈ s.ids ∧ s.rootOf id = root := by
  have hself : s.rootOf root = root := by
    obtain ⟨index, hindex, rfl⟩ := List.mem_map.mp hroot
    exact hs.rootOf_of_mem_roots hpackage hindex
  constructor
  · intro hid
    have hinside := hs.rootOf_of_mem_nestingTo (hs.mem_ids_of_mem_rootsOf hpackage hroot) hid
    exact ⟨hinside.1, hinside.2.trans hself⟩
  · rintro ⟨hid, rfl⟩
    exact hs.mem_withDescendants_rootOf hid

end Linked

end Schema
end Schemata
