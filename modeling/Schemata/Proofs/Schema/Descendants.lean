import Schemata.Proofs.Schema.Nesting

/-!
# Listing a declaration and all that is inside it

The list is made by a loop that adds to the list it goes over: at each position
it appends the children of the declaration that stands there.  Whether that ends
is not for the loop to say.  It does where parents come before children, since
then each generation stands behind the one before it in the table of the
package, and that is finite.

`Extends` is the loop, `Traversed` what one round keeps: behind the first
declaration stand the children of those that were visited, in the order of the
visits, and none stands there twice, as each declaration has one parent only.

**Results.**
* `Schema.Linked.extends_iff`: the loop ends, and has listed `withDescendants`.
* `Schema.Linked.traversed_withDescendants`, `Schema.Linked.cons_childrenOf_sublist`: what is
  listed, and in which order.
* `Schema.Linked.mem_withDescendants_iff_encloses`: inside a declaration is what leads to it by
  parents.
* `Schema.Linked.flatMap_withDescendants_perm`: the roots of a package share out its declarations.
-/

namespace Schemata

namespace Nesting

section Join

variable {α β : Type}

theorem joinLevels_nil
    (as : List (List α)) :
    joinLevels as [] = as := by
  cases as with
  | nil =>
      rfl
  | cons a as =>
      rfl

theorem joinLevels_assoc
    (as bs cs : List (List α)) :
    joinLevels (joinLevels as bs) cs = joinLevels as (joinLevels bs cs) := by
  induction as generalizing bs cs with
  | nil =>
      rfl
  | cons a as ih =>
      cases bs with
      | nil =>
          rw [joinLevels_nil]
          rfl
      | cons b bs =>
          cases cs with
          | nil =>
              rw [joinLevels_nil, joinLevels_nil]
          | cons c cs =>
              simp only [joinLevels, ih, List.append_assoc]

theorem foldr_joinLevels_append
    (xs ys : List (List (List α))) :
    (xs ++ ys).foldr joinLevels [] =
      joinLevels (xs.foldr joinLevels []) (ys.foldr joinLevels []) := by
  induction xs with
  | nil =>
      rfl
  | cons x xs ih =>
      rw [List.cons_append, List.foldr_cons, ih, List.foldr_cons, joinLevels_assoc]

/-- Levels that are joined group by group are joined. -/
theorem foldr_joinLevels_flatMap
    (f : β → List (List (List α)))
    (bs : List β) :
    (bs.flatMap f).foldr joinLevels [] =
      (bs.map fun b => (f b).foldr joinLevels []).foldr joinLevels [] := by
  induction bs with
  | nil =>
      rfl
  | cons b bs ih =>
      rw [List.flatMap_cons, foldr_joinLevels_append, ih, List.map_cons, List.foldr_cons]

/-- Of trees next to each other, the outermost declarations are the first level. -/
theorem flatten_foldr_joinLevels
    (deeper : α → List (List α))
    (as : List α) :
    ((as.map fun a => [a] :: deeper a).foldr joinLevels []).flatten =
      as ++ ((as.map deeper).foldr joinLevels []).flatten := by
  have hfirst : ∀ a as, ((a :: as).map fun a => [a] :: deeper a).foldr joinLevels [] =
      (a :: as) :: ((a :: as).map deeper).foldr joinLevels [] := by
    intro a as
    induction as generalizing a with
    | nil =>
        simp [joinLevels_nil]
    | cons a' as ih =>
        rw [List.map_cons, List.foldr_cons, ih, joinLevels]
        rfl
  cases as with
  | nil =>
      rfl
  | cons a as =>
      rw [hfirst, List.flatten_cons]

theorem foldr_joinLevels_replicate
    (n : Nat) :
    (List.replicate n []).foldr joinLevels ([] : List (List α)) = [] := by
  induction n with
  | zero =>
      rfl
  | succ n ih =>
      rw [List.replicate_succ, List.foldr_cons, ih]
      rfl

/-- Joined levels hold what the levels hold. -/
theorem joinLevels_perm
    (as bs : List (List α)) :
    (joinLevels as bs).flatten.Perm (as.flatten ++ bs.flatten) := by
  fun_induction joinLevels as bs with
  | case1 bs =>
      exact .refl _
  | case2 as =>
      rw [List.flatten_nil, List.append_nil]
  | case3 a as b bs ih =>
      simp only [List.flatten_cons, List.append_assoc]
      refine List.Perm.append_left a ((ih.append_left b).trans ?_)
      rw [← List.append_assoc, ← List.append_assoc]
      exact List.perm_append_comm.append_right _

theorem foldr_joinLevels_perm
    (trees : List (List (List α))) :
    (trees.foldr joinLevels []).flatten.Perm (trees.flatMap List.flatten) := by
  induction trees with
  | nil =>
      exact .refl _
  | cons levels trees ih =>
      exact (joinLevels_perm _ _).trans (ih.append_left _)

end Join

end Nesting

namespace Schema

section Loop

variable (s : Schema)

/-- What the loop makes of a list, from a position on: as long as a declaration stands at the
position, its children are appended and the position moves on. -/
inductive Extends : List DeclId → Nat → List DeclId → Prop
  | done
      {listed : List DeclId}
      {position : Nat}
      (h : listed.length ≤ position) :
      Extends listed position listed
  | next
      {listed result : List DeclId}
      {position : Nat}
      {id : DeclId}
      (h : listed[position]? = some id)
      (hrest : Extends (listed ++ s.childrenOf id) (position + 1) result) :
      Extends listed position result

/-- A generation of declarations and those that come from it, as many as the depth says. -/
def generations : Nat → List DeclId → List DeclId
  | 0, ids => ids
  | depth + 1, ids => ids ++ generations depth (ids.flatMap s.childrenOf)

/-- The declarations of a later generation. -/
def generation : Nat → List DeclId → List DeclId
  | 0, ids => ids
  | depth + 1, ids => generation depth (ids.flatMap s.childrenOf)

variable {s}

/-- The loop leads to one list only. -/
theorem Extends.unique
    {listed result result' : List DeclId}
    {position : Nat}
    (h : s.Extends listed position result)
    (h' : s.Extends listed position result') :
    result = result' := by
  induction h with
  | done hend =>
      cases h' with
      | done _ =>
          rfl
      | next hid _ =>
          rw [List.getElem?_eq_none hend] at hid
          cases hid
  | next hid _ ih =>
      cases h' with
      | done hend =>
          rw [List.getElem?_eq_none hend] at hid
          cases hid
      | next hid' hrest =>
          obtain rfl := Option.some.inj (hid.symm.trans hid')
          exact ih hrest

/-- The loop goes over a generation and has appended the next one. -/
theorem Extends.generation
    {before ids after result : List DeclId}
    (h : s.Extends (before ++ ids ++ after ++ ids.flatMap s.childrenOf)
      (before.length + ids.length) result) :
    s.Extends (before ++ ids ++ after) before.length result := by
  induction ids generalizing before after with
  | nil =>
      simpa using h
  | cons id ids ih =>
      have hid : (before ++ id :: ids ++ after)[before.length]? = some id := by
        simp
      have hrest : s.Extends (before ++ [id] ++ ids ++ (after ++ s.childrenOf id))
          (before ++ [id]).length result :=
        ih (by simpa [Nat.add_assoc, Nat.add_comm 1] using h)
      exact .next hid (by simpa using hrest)

/-- The same at the end of the list. -/
theorem Extends.next_generation
    {before ids result : List DeclId}
    (h : s.Extends (before ++ ids ++ ids.flatMap s.childrenOf) (before ++ ids).length result) :
    s.Extends (before ++ ids) before.length result := by
  rw [← List.append_nil (before ++ ids)]
  refine Extends.generation ?_
  rwa [List.append_nil, ← List.length_append]

/-- The loop ends where a generation is empty. -/
theorem extends_generations
    {depth : Nat}
    {before ids : List DeclId}
    (hempty : s.generation (depth + 1) ids = []) :
    s.Extends (before ++ ids) before.length (before ++ s.generations depth ids) := by
  induction depth generalizing before ids with
  | zero =>
      refine Extends.next_generation ?_
      rw [show ids.flatMap s.childrenOf = [] from hempty, List.append_nil]
      exact .done le_rfl
  | succ depth ih =>
      refine Extends.next_generation ?_
      rw [generations, ← List.append_assoc]
      exact ih hempty

variable (s)

/-- The levels of a tree are generations. -/
theorem flatten_levels_nestingTo
    (depth : Nat)
    (ids : List DeclId) :
    ((ids.map fun id => (s.nestingTo depth id).levels).foldr Nesting.joinLevels []).flatten =
      s.generations depth ids := by
  induction depth generalizing ids with
  | zero =>
      simp only [nestingTo, Nesting.levels_node]
      rw [Nesting.flatten_foldr_joinLevels, List.map_nil, List.foldr_nil, List.map_const',
        Nesting.foldr_joinLevels_replicate, List.flatten_nil, List.append_nil, generations]
  | succ depth ih =>
      simp only [nestingTo, Nesting.levels_node, List.map_map, Function.comp_def]
      rw [Nesting.flatten_foldr_joinLevels, generations, ← ih, List.map_flatMap,
        Nesting.foldr_joinLevels_flatMap]

/-- Both orders list the same. -/
theorem preorder_nestingTo_perm
    (depth : Nat)
    (id : DeclId) :
    (s.nestingTo depth id).preorder.Perm (s.nestingTo depth id).levelOrder := by
  induction depth generalizing id with
  | zero =>
      exact .refl _
  | succ depth ih =>
      have hinner := Nesting.foldr_joinLevels_perm
        (((s.childrenOf id).map (s.nestingTo depth)).map Nesting.levels)
      rw [nestingTo, Nesting.preorder_node, Nesting.levelOrder, Nesting.levels_node,
        List.flatten_cons]
      refine List.Perm.cons id (List.Perm.trans ?_ hinner.symm)
      rw [List.flatMap_map, List.flatMap_map, List.flatMap_map]
      exact List.Perm.flatMap_left _ fun child _ => ih child

theorem withDescendants_eq_generations
    (id : DeclId) :
    s.withDescendants id = s.generations (s.package id.package).decls.length [id] := by
  rw [← flatten_levels_nestingTo, List.map_singleton, List.foldr_cons, List.foldr_nil,
    Nesting.joinLevels_nil]
  rfl

end Loop

section Order

variable {s : Schema}

theorem Extends.isPrefix
    {listed result : List DeclId}
    {position : Nat}
    (h : s.Extends listed position result) :
    listed <+: result := by
  induction h with
  | done _ =>
      exact List.prefix_rfl
  | next _ _ ih =>
      exact (List.prefix_append _ _).trans ih

/-- Each declaration that the loop visits is listed before its children, and these in their
order. -/
theorem Extends.cons_sublist
    {listed result : List DeclId}
    {position : Nat}
    (h : s.Extends listed position result)
    {i : Nat}
    (hi : position ≤ i)
    {x : DeclId}
    (hx : result[i]? = some x) :
    (x :: s.childrenOf x).Sublist result := by
  induction h with
  | done hend =>
      rw [List.getElem?_eq_none (hend.trans hi)] at hx
      cases hx
  | @next listed result position id hid hrest ih =>
      rcases Nat.eq_or_lt_of_le hi with rfl | hlt
      · obtain ⟨after, rfl⟩ := hrest.isPrefix
        have hlisted := (List.getElem?_eq_some_iff.mp hid).1
        rw [List.append_assoc, List.getElem?_append_left hlisted] at hx
        obtain rfl : id = x := Option.some.inj (hid.symm.trans hx)
        have hself : [id].Sublist listed :=
          List.singleton_sublist.mpr (List.mem_of_getElem? hid)
        exact (hself.append (List.Sublist.refl _)).trans (List.sublist_append_left _ _)
      · exact ih hlt hx

end Order

section Nested

variable (s : Schema)

theorem mem_idsOf_iff
    {package : Nat}
    (hpackage : package < s.packages.length)
    (id : DeclId) :
    id ∈ s.idsOf package ↔ id ∈ s.ids ∧ id.package = package := by
  simp only [mem_ids_iff, idsOf, List.mem_map, List.mem_range]
  constructor
  · rintro ⟨index, hindex, rfl⟩
    exact ⟨⟨hpackage, hindex⟩, rfl⟩
  · rintro ⟨⟨-, hindex⟩, rfl⟩
    exact ⟨id.index, hindex, rfl⟩

/-- The second declaration has the first as its parent. -/
def IsParent
    (outer inner : DeclId) : Prop :=
  inner ∈ s.ids ∧ inner.package = outer.package ∧ (s.decl inner).parent = some outer.index

/-- The second declaration is the first or is inside it, at any depth. -/
def Encloses : DeclId → DeclId → Prop :=
  Relation.ReflTransGen s.IsParent

/-- What the loop has listed from a declaration on, before a position: behind the declaration the
children of those visited, and nothing twice. -/
structure Traversed
    (id : DeclId)
    (listed : List DeclId)
    (position : Nat) : Prop where
  le : position ≤ listed.length
  eq : listed = id :: (listed.take position).flatMap s.childrenOf
  nodup : listed.Nodup
  inside : ∀ x ∈ listed, s.Encloses id x

end Nested

namespace Linked

variable {s : Schema}
variable (hs : s.Linked)

include hs

/-- Parents and children agree. -/
theorem isParent_iff
    {outer : DeclId}
    (houter : outer ∈ s.ids)
    (inner : DeclId) :
    s.IsParent outer inner ↔ inner ∈ s.childrenOf outer := by
  obtain ⟨hpackage, hlt⟩ := (s.mem_ids_iff outer).mp houter
  have hforest := hs.forest_of_mem houter
  constructor
  · rintro ⟨-, heq, hparent⟩
    obtain ⟨package, index⟩ := inner
    obtain rfl : package = outer.package := heq
    exact List.mem_map_of_mem (hforest.mem_children_of_parent hparent).2.2
  · intro hinner
    obtain ⟨index, hindex, rfl⟩ := List.mem_map.mp hinner
    obtain ⟨hlt', hparent⟩ := hforest.parent_of_mem_children hlt hindex
    exact ⟨(s.mem_ids_iff _).mpr ⟨hpackage, hlt'⟩, rfl, hparent⟩

theorem index_lt_of_mem_childrenOf
    {outer inner : DeclId}
    (houter : outer ∈ s.ids)
    (hinner : inner ∈ s.childrenOf outer) :
    inner.package = outer.package ∧ outer.index < inner.index := by
  obtain ⟨-, hpackage, hparent⟩ := (hs.isParent_iff houter inner).mpr hinner
  have hparent : ((s.package outer.package).decl inner.index).parent = some outer.index := by
    rw [← hpackage]
    exact hparent
  exact ⟨hpackage, ((hs.forest_of_mem houter).mem_children_of_parent hparent).1⟩

/-- A declaration is no later in the table than those inside it. -/
theorem index_le_of_encloses
    {id x : DeclId}
    (hid : id ∈ s.ids)
    (hx : s.Encloses id x) :
    x ∈ s.ids ∧ id.index ≤ x.index := by
  induction hx with
  | refl =>
      exact ⟨hid, le_rfl⟩
  | tail _ hstep ih =>
      obtain ⟨-, hlt⟩ := hs.index_lt_of_mem_childrenOf ih.1 ((hs.isParent_iff ih.1 _).mp hstep)
      exact ⟨hstep.1, ih.2.trans hlt.le⟩

/-- A declaration is a child of one declaration only. -/
theorem parent_unique
    {outer outer' inner : DeclId}
    (houter : outer ∈ s.ids)
    (houter' : outer' ∈ s.ids)
    (h : inner ∈ s.childrenOf outer)
    (h' : inner ∈ s.childrenOf outer') :
    outer = outer' := by
  obtain ⟨-, hpackage, hparent⟩ := (hs.isParent_iff houter inner).mpr h
  obtain ⟨-, hpackage', hparent'⟩ := (hs.isParent_iff houter' inner).mpr h'
  have hindex := Option.some.inj (hparent.symm.trans hparent')
  obtain ⟨package, index⟩ := outer
  obtain ⟨package', index'⟩ := outer'
  exact congrArg₂ DeclId.mk (hpackage.symm.trans hpackage') hindex

theorem nodup_childrenOf
    {id : DeclId}
    (hid : id ∈ s.ids) :
    (s.childrenOf id).Nodup := by
  have hmem : s.decl id ∈ (s.package id.package).decls :=
    List.mem_of_getElem? (Package.getElem?_decl _ ((s.mem_ids_iff id).mp hid).2)
  refine ((hs.forest_of_mem hid).names _ hmem).of_map.map ?_
  intro i j heq
  exact (DeclId.mk.inj heq).2

/-- Each generation stands behind the one before it in the table. -/
theorem index_le_of_mem_generation
    {package start depth : Nat}
    {ids : List DeclId}
    (hids : ∀ id ∈ ids, id ∈ s.ids ∧ id.package = package ∧ start ≤ id.index)
    {x : DeclId}
    (hx : x ∈ s.generation depth ids) :
    x ∈ s.ids ∧ x.package = package ∧ start + depth ≤ x.index := by
  induction depth generalizing start ids with
  | zero =>
      exact hids x hx
  | succ depth ih =>
      have hnext : ∀ child ∈ ids.flatMap s.childrenOf,
          child ∈ s.ids ∧ child.package = package ∧ start + 1 ≤ child.index := by
        intro child hchild
        obtain ⟨id, hmem, hchild⟩ := List.mem_flatMap.mp hchild
        obtain ⟨hid, hpackage, hle⟩ := hids id hmem
        obtain ⟨heq, hlt⟩ := hs.index_lt_of_mem_childrenOf hid hchild
        exact ⟨(hs.mem_ids_child hid hchild).1, heq.trans hpackage, by omega⟩
      obtain ⟨hmem, hpackage, hle⟩ := ih hnext hx
      exact ⟨hmem, hpackage, by omega⟩

/-- The loop ends, and has listed what is inside the declaration. -/
theorem extends_iff
    {id : DeclId}
    (hid : id ∈ s.ids)
    (listed : List DeclId) :
    s.Extends [id] 0 listed ↔ listed = s.withDescendants id := by
  have hempty : s.generation ((s.package id.package).decls.length + 1) [id] = [] := by
    rw [List.eq_nil_iff_forall_not_mem]
    intro x hx
    have hfirst : ∀ y ∈ [id], y ∈ s.ids ∧ y.package = id.package ∧ 0 ≤ y.index := by
      simp [hid]
    obtain ⟨hmem, hpackage, hle⟩ := hs.index_le_of_mem_generation hfirst hx
    have hlt := ((s.mem_ids_iff x).mp hmem).2
    rw [hpackage] at hlt
    omega
  have hrun : s.Extends [id] 0 (s.withDescendants id) := by
    rw [s.withDescendants_eq_generations]
    have hlisted : s.Extends ([] ++ [id]) ([] : List DeclId).length
        ([] ++ s.generations (s.package id.package).decls.length [id]) :=
      extends_generations hempty
    exact hlisted
  exact ⟨fun h => h.unique hrun, fun h => h ▸ hrun⟩

end Linked

/-- One round of the loop. -/
theorem Traversed.next
    {s : Schema}
    (hs : s.Linked)
    {id x : DeclId}
    (hid : id ∈ s.ids)
    {listed : List DeclId}
    {position : Nat}
    (h : s.Traversed id listed position)
    (hx : listed[position]? = some x) :
    s.Traversed id (listed ++ s.childrenOf x) (position + 1) := by
  obtain ⟨hlt, hget⟩ := List.getElem?_eq_some_iff.mp hx
  have hmem : x ∈ listed := List.mem_of_getElem? hx
  obtain ⟨hxids, hle⟩ := hs.index_le_of_encloses hid (h.inside x hmem)
  have htake : (listed ++ s.childrenOf x).take (position + 1) = listed.take position ++ [x] := by
    rw [List.take_append_of_le_length hlt, List.take_succ_eq_append_getElem hlt, hget]
  refine ⟨?_, ?_, ?_, ?_⟩
  · rw [List.length_append]
    omega
  · rw [htake, List.flatMap_append, List.flatMap_singleton, ← List.cons_append, ← h.eq]
  · refine List.nodup_append'.mpr ⟨h.nodup, hs.nodup_childrenOf hxids, ?_⟩
    intro child hlisted hchild
    have hbefore := hs.index_lt_of_mem_childrenOf hxids hchild
    rw [h.eq, List.mem_cons, List.mem_flatMap] at hlisted
    rcases hlisted with rfl | ⟨y, hy, hchild'⟩
    · -- the first declaration is no child of one inside it
      omega
    · -- a child of one visited before has that one as its only parent
      have hyids := (hs.index_le_of_encloses hid (h.inside y (List.mem_of_mem_take hy))).1
      obtain rfl := hs.parent_unique hyids hxids hchild' hchild
      obtain ⟨i, hi, heq⟩ := List.mem_take_iff_getElem.mp hy
      have hsame := h.nodup.getElem_inj_iff.mp (heq.trans hget.symm)
      omega
  · intro y hy
    rcases List.mem_append.mp hy with hy | hy
    · exact h.inside y hy
    · exact (h.inside x hmem).tail ((hs.isParent_iff hxids y).mpr hy)

/-- A whole run of the loop. -/
theorem Traversed.of_extends
    {s : Schema}
    (hs : s.Linked)
    {id : DeclId}
    (hid : id ∈ s.ids)
    {listed result : List DeclId}
    {position : Nat}
    (hrun : s.Extends listed position result)
    (h : s.Traversed id listed position) :
    s.Traversed id result result.length := by
  induction hrun with
  | done hend =>
      rwa [h.le.antisymm hend] at h
  | next hx _ ih =>
      exact ih (h.next hs hid hx)

namespace Linked

variable {s : Schema}
variable (hs : s.Linked)

include hs

/-- The loop has listed a declaration and the children of all that it has listed, nothing twice. -/
theorem traversed_withDescendants
    {id : DeclId}
    (hid : id ∈ s.ids) :
    s.Traversed id (s.withDescendants id) (s.withDescendants id).length := by
  refine Traversed.of_extends hs hid ((hs.extends_iff hid _).mpr rfl) ⟨Nat.zero_le _, rfl, ?_, ?_⟩
  · exact List.nodup_singleton id
  · intro x hx
    obtain rfl := List.mem_singleton.mp hx
    exact .refl

theorem withDescendants_eq_cons
    {id : DeclId}
    (hid : id ∈ s.ids) :
    s.withDescendants id = id :: (s.withDescendants id).flatMap s.childrenOf := by
  have heq := (hs.traversed_withDescendants hid).eq
  rwa [List.take_length] at heq

/-- What is listed is inside the declaration, and what is inside it is listed. -/
theorem mem_withDescendants_iff_encloses
    {id : DeclId}
    (hid : id ∈ s.ids)
    (x : DeclId) :
    x ∈ s.withDescendants id ↔ s.Encloses id x := by
  have htraversed := hs.traversed_withDescendants hid
  refine ⟨htraversed.inside x, fun h => ?_⟩
  induction h with
  | refl =>
      rw [hs.withDescendants_eq_cons hid]
      exact List.mem_cons_self
  | @tail outer inner houter hstep ih =>
      have hmem := (hs.index_le_of_encloses hid houter).1
      rw [hs.withDescendants_eq_cons hid]
      exact List.mem_cons_of_mem _
        (List.mem_flatMap.mpr ⟨outer, ih, (hs.isParent_iff hmem inner).mp hstep⟩)

/-- Each declaration is listed before its children, and these in their order. -/
theorem cons_childrenOf_sublist
    {id x : DeclId}
    (hid : id ∈ s.ids)
    (hx : x ∈ s.withDescendants id) :
    (x :: s.childrenOf x).Sublist (s.withDescendants id) := by
  obtain ⟨i, hi⟩ := List.getElem?_of_mem hx
  exact ((hs.extends_iff hid _).mpr rfl).cons_sublist (Nat.zero_le i) hi

/-- Of two roots of a package, the lists have nothing in common. -/
theorem pairwise_disjoint_withDescendants
    {package : Nat}
    (hpackage : package < s.packages.length) :
    (s.rootsOf package).Pairwise fun root root' =>
      List.Disjoint (s.withDescendants root) (s.withDescendants root') := by
  have hnodup : (s.rootsOf package).Nodup := by
    refine (hs.forest _ _ (s.getElem?_package hpackage)).rootNames.of_map.map ?_
    intro i j heq
    exact (DeclId.mk.inj heq).2
  refine hnodup.imp_of_mem fun {root root'} hroot hroot' hne x hx hx' => hne ?_
  rw [← ((hs.mem_withDescendants_iff hpackage hroot x).mp hx).2]
  exact ((hs.mem_withDescendants_iff hpackage hroot' x).mp hx').2

/-- The lists of the roots of a package share out its declarations. -/
theorem flatMap_withDescendants_perm
    {package : Nat}
    (hpackage : package < s.packages.length) :
    ((s.rootsOf package).flatMap s.withDescendants).Perm (s.idsOf package) := by
  have hroots : ∀ root ∈ s.rootsOf package, root ∈ s.ids ∧ root.package = package := by
    intro root hroot
    refine ⟨hs.mem_ids_of_mem_rootsOf hpackage hroot, ?_⟩
    obtain ⟨index, -, rfl⟩ := List.mem_map.mp hroot
    rfl
  have hlists : ((s.rootsOf package).flatMap s.withDescendants).Nodup := by
    rw [List.nodup_flatMap]
    exact ⟨fun root hroot => (hs.traversed_withDescendants (hroots root hroot).1).nodup,
      hs.pairwise_disjoint_withDescendants hpackage⟩
  have hids : (s.idsOf package).Nodup := by
    refine List.nodup_range.map ?_
    intro i j heq
    exact (DeclId.mk.inj heq).2
  refine (List.perm_ext_iff_of_nodup hlists hids).mpr fun id => ?_
  rw [s.mem_idsOf_iff hpackage, List.mem_flatMap]
  constructor
  · rintro ⟨root, hroot, hid⟩
    obtain ⟨hmem, heq⟩ := (hs.mem_withDescendants_iff hpackage hroot id).mp hid
    refine ⟨hmem, ?_⟩
    rw [← (hroots root hroot).2, ← heq]
    rfl
  · rintro ⟨hid, rfl⟩
    exact ⟨s.rootOf id, hs.rootOf id hid, hs.mem_withDescendants_rootOf hid⟩

end Linked

end Schema
end Schemata
