import Schemata.Proofs.Resolve.Reference

/-!
# The links between declarations

Declarations of a package name their parent and their children by index, and
those who read a schema follow these links without looking.  `IsForest` says
what the links of one package promise; `Climbs` is the way from a declaration
along its parents, with no bound on its length, so that a declaration that
climbs has an end to reach.

Everything is read off from the table of the file, whose entries form a forest
as soon as they are registered.

**Results.**
* `isForest_of_resolvedFrom`: the links of every package form a forest.
* `resolve_linked`: paths and roots are found at the end of every climb, and
  the path of a declaration leads back to it.
-/

namespace Schemata

/-- The way from a declaration along its parents ends, and it visits these declarations. -/
inductive Package.Climbs
    (p : Package) :
    Nat → List Nat → Prop
  | root
      {i : Nat}
      {d : Decl}
      (hd : p.decls[i]? = some d)
      (hparent : d.parent = none) :
      Climbs p i [i]
  | child
      {i outer : Nat}
      {d : Decl}
      {above : List Nat}
      (hd : p.decls[i]? = some d)
      (hparent : d.parent = some outer)
      (habove : Climbs p outer above) :
      Climbs p i (i :: above)

/-- The declarations of a package know their places, and their links form a forest in which parents
come before children and siblings have distinct names. -/
structure Package.IsForest
    (package : Nat)
    (p : Package) : Prop where
  ids : ∀ i (d : Decl), p.decls[i]? = some d → d.id = ⟨package, i⟩
  children : ∀ i (d : Decl), p.decls[i]? = some d →
    ∀ c, c ∈ d.children ↔ ∃ inner : Decl, p.decls[c]? = some inner ∧ inner.parent = some i
  roots : ∀ i, i ∈ p.roots ↔ ∃ d : Decl, p.decls[i]? = some d ∧ d.parent = none
  once : (p.roots ++ p.decls.flatMap (·.children)).Perm (List.range p.decls.length)
  before : ∀ i (d : Decl), p.decls[i]? = some d → ∀ c ∈ d.children, i < c
  rootNames : (p.roots.map fun i => (p.decl i).name).Nodup
  names : ∀ d ∈ p.decls, (d.children.map fun c => (p.decl c).name).Nodup

/-- The links of a schema can be followed: each package is a forest, every climb ends, at a root,
with the path of the declaration, and the path leads back to the declaration. -/
structure Schema.Linked
    (s : Schema) : Prop where
  forest : ∀ package (p : Package), s.packages[package]? = some p → p.IsForest package
  climbs : ∀ id ∈ s.ids, ∃ above,
    (s.package id.package).Climbs id.index above ∧
      s.declPath id = (above.map fun i => (s.decl ⟨id.package, i⟩).name).reverse ∧
      above.getLast? = some (s.rootOf id).index
  rootOf : ∀ id ∈ s.ids, s.rootOf id ∈ s.rootsOf id.package
  lookup : ∀ id ∈ s.ids, s.lookup? id.package (s.declPath id) = some id

namespace Table

/-- The table is where the declarations of the package come from. -/
structure Backs
    (t : Table)
    (package : Nat)
    (p : Package) : Prop where
  roots : p.roots = t.roots
  length : p.decls.length = t.entries.length
  decl : ∀ i (d : Decl), p.decls[i]? = some d → d.id = ⟨package, i⟩ ∧
    ∃ e, t.entry? i = some e ∧ d.parent = e.parent ∧ d.children = e.children
  entry : ∀ i e, t.entry? i = some e →
    ∃ d, p.decls[i]? = some d ∧ d.parent = e.parent ∧ d.children = e.children
  name : ∀ i, (p.decl i).name = t.nameAt i

section Backs

variable {t : Table}
variable {package : Nat}
variable {p : Package}
variable (hbacks : t.Backs package p)

include hbacks

theorem Backs.entry?_eq_none
    {i : Nat}
    (hd : p.decls[i]? = none) :
    t.entry? i = none := by
  rw [Table.entry?, List.getElem?_eq_none_iff, ← hbacks.length]
  exact List.getElem?_eq_none_iff.mp hd

theorem Backs.parentAt
    (i : Nat) :
    (p.decl i).parent = t.parentAt i := by
  unfold Package.decl Table.parentAt
  cases hd : p.decls[i]? with
  | none =>
      rw [hbacks.entry?_eq_none hd]
      rfl
  | some d =>
      obtain ⟨-, e, he, hparent, -⟩ := hbacks.decl i d hd
      rw [he]
      exact hparent

theorem Backs.childrenAt
    (i : Nat) :
    (p.decl i).children = t.childrenAt i := by
  unfold Package.decl Table.childrenAt
  cases hd : p.decls[i]? with
  | none =>
      rw [hbacks.entry?_eq_none hd]
      rfl
  | some d =>
      obtain ⟨-, e, he, -, hchildren⟩ := hbacks.decl i d hd
      rw [he]
      exact hchildren

theorem Backs.parents
    (i : Nat) :
    p.parents i = enclosing t.parentAt t.entries.length i := by
  unfold Package.parents
  simp only [hbacks.parentAt, hbacks.length]

theorem Backs.find?
    (path : List String) :
    p.find? path = t.walkFrom t.roots path := by
  unfold Package.find? Table.walkFrom
  simp only [hbacks.name, hbacks.childrenAt, hbacks.roots]

variable (hforest : t.Forest)

include hforest

theorem Backs.mem_children_iff
    {i : Nat}
    {d : Decl}
    (hd : p.decls[i]? = some d)
    (c : Nat) :
    c ∈ d.children ↔ ∃ inner, p.decls[c]? = some inner ∧ inner.parent = some i := by
  obtain ⟨-, e, he, -, hchildren⟩ := hbacks.decl i d hd
  rw [hchildren]
  constructor
  · intro hc
    obtain ⟨-, inner, hinner, hparent, -⟩ := (hforest.node i e he).children c hc
    obtain ⟨d', hd', hparent', -⟩ := hbacks.entry c inner hinner
    exact ⟨d', hd', hparent'.trans hparent⟩
  · rintro ⟨inner, hinner, hparent⟩
    obtain ⟨-, e', he', hparent', -⟩ := hbacks.decl c inner hinner
    obtain ⟨outer, houter, hmem⟩ := hforest.mem_children he' (hparent'.symm.trans hparent)
    obtain rfl : e = outer := Option.some.inj (he.symm.trans houter)
    exact hmem

theorem Backs.mem_roots_iff
    (i : Nat) :
    i ∈ p.roots ↔ ∃ d, p.decls[i]? = some d ∧ d.parent = none := by
  rw [hbacks.roots]
  constructor
  · intro hi
    obtain ⟨e, he, hparent⟩ := hforest.roots i hi
    obtain ⟨d, hd, hparent', -⟩ := hbacks.entry i e he
    exact ⟨d, hd, hparent'.trans hparent⟩
  · rintro ⟨d, hd, hparent⟩
    obtain ⟨-, e, he, hparent', -⟩ := hbacks.decl i d hd
    exact (hforest.mem_roots_iff i).mpr ⟨e.name, Leads.root he (hparent'.symm.trans hparent)⟩

theorem Backs.nodup_names
    {d : Decl}
    (hd : d ∈ p.decls) :
    (d.children.map fun c => (p.decl c).name).Nodup := by
  obtain ⟨i, hi⟩ := List.getElem?_of_mem hd
  obtain ⟨-, e, he, -, hchildren⟩ := hbacks.decl i d hi
  simp only [hbacks.name, hchildren]
  exact (hforest.node i e he).names

theorem Backs.nodup_rootNames :
    (p.roots.map fun i => (p.decl i).name).Nodup := by
  simp only [hbacks.name, hbacks.roots]
  exact hforest.rootNames

/-- No index is listed twice: siblings have distinct names, and an index has one parent only. -/
theorem Backs.nodup_listed :
    (p.roots ++ p.decls.flatMap (·.children)).Nodup := by
  have hroots := (hbacks.nodup_rootNames hforest).of_map
  have hchildren : (p.decls.flatMap (·.children)).Nodup := by
    rw [List.nodup_flatMap]
    refine ⟨fun d hd => (hbacks.nodup_names hforest hd).of_map, ?_⟩
    rw [List.pairwise_iff_getElem]
    intro i j hi hj hij c hci hcj
    have hdi := List.getElem?_eq_getElem hi
    have hdj := List.getElem?_eq_getElem hj
    obtain ⟨inner, hinner, hparent⟩ := (hbacks.mem_children_iff hforest hdi c).mp hci
    obtain ⟨inner', hinner', hparent'⟩ := (hbacks.mem_children_iff hforest hdj c).mp hcj
    obtain rfl : inner = inner' := Option.some.inj (hinner.symm.trans hinner')
    have heq : i = j := Option.some.inj (hparent.symm.trans hparent')
    omega
  refine List.nodup_append'.mpr ⟨hroots, hchildren, ?_⟩
  intro c hroot hchild
  obtain ⟨d, hd, hc⟩ := List.mem_flatMap.mp hchild
  obtain ⟨i, hi⟩ := List.getElem?_of_mem hd
  obtain ⟨inner, hinner, hparent⟩ := (hbacks.mem_children_iff hforest hi c).mp hc
  obtain ⟨inner', hinner', hnone⟩ := (hbacks.mem_roots_iff hforest c).mp hroot
  obtain rfl : inner = inner' := Option.some.inj (hinner.symm.trans hinner')
  rw [hnone] at hparent
  cases hparent

/-- The indices that are listed are those of the declarations. -/
theorem Backs.mem_listed_iff
    (c : Nat) :
    c ∈ p.roots ++ p.decls.flatMap (·.children) ↔ c < p.decls.length := by
  rw [List.mem_append, List.mem_flatMap]
  constructor
  · rintro (hroot | ⟨d, hd, hc⟩)
    · obtain ⟨d, hd, -⟩ := (hbacks.mem_roots_iff hforest c).mp hroot
      exact (List.getElem?_eq_some_iff.mp hd).1
    · obtain ⟨i, hi⟩ := List.getElem?_of_mem hd
      obtain ⟨inner, hinner, -⟩ := (hbacks.mem_children_iff hforest hi c).mp hc
      exact (List.getElem?_eq_some_iff.mp hinner).1
  · intro hc
    have hd := List.getElem?_eq_getElem hc
    obtain ⟨-, e, he, hparent, -⟩ := hbacks.decl c _ hd
    cases hup : e.parent with
    | none =>
        exact Or.inl ((hbacks.mem_roots_iff hforest c).mpr ⟨_, hd, hparent.trans hup⟩)
    | some i =>
        obtain ⟨outer, houter, hmem⟩ := hforest.mem_children he hup
        obtain ⟨d, hdi, -, hchildren⟩ := hbacks.entry i outer houter
        exact Or.inr ⟨d, List.mem_of_getElem? hdi, hchildren ▸ hmem⟩

theorem Backs.isForest :
    p.IsForest package where
  ids := fun i d hd => (hbacks.decl i d hd).1
  children := fun i d hd => hbacks.mem_children_iff hforest hd
  roots := hbacks.mem_roots_iff hforest
  once := by
    rw [List.perm_ext_iff_of_nodup (hbacks.nodup_listed hforest) List.nodup_range]
    intro c
    rw [hbacks.mem_listed_iff hforest, List.mem_range]
  before := by
    intro i d hd c hc
    obtain ⟨-, e, he, -, hchildren⟩ := hbacks.decl i d hd
    rw [hchildren] at hc
    exact ((hforest.node i e he).children c hc).1
  rootNames := hbacks.nodup_rootNames hforest
  names := fun d hd => hbacks.nodup_names hforest hd

/-- A climb visits the declarations that enclose its start, up to a root. -/
theorem Backs.climbs_parents
    {i : Nat}
    {e : Entry}
    (he : t.entry? i = some e) :
    p.Climbs i (p.parents i) ∧ ∃ root ∈ p.roots, (p.parents i).getLast? = some root := by
  rw [hbacks.parents, hforest.enclosing_of_entry he]
  induction i using Nat.strongRecOn generalizing e with
  | ind i ih =>
      obtain ⟨d, hd, hparent, -⟩ := hbacks.entry i e he
      cases hup : e.parent with
      | none =>
          have hnone := hparent.trans hup
          exact ⟨.root hd hnone, i, (hbacks.mem_roots_iff hforest i).mpr ⟨d, hd, hnone⟩, rfl⟩
      | some outer =>
          obtain ⟨e', he', -⟩ := hforest.mem_children he hup
          have hlt := hforest.parent_lt i outer (by simp [Table.parentAt, he, hup])
          obtain ⟨hclimbs, root, hroot, hlast⟩ := ih outer hlt he'
          simp only
          rw [hforest.enclosing_of_entry he']
          refine ⟨.child hd (hparent.trans hup) hclimbs, root, hroot, ?_⟩
          rw [List.getLast?_cons_cons]
          exact hlast

end Backs

end Table

section Resolved

variable {options : ResolveOptions}
variable {files : List SourceFile}
variable {s : Schema}
variable (h : Resolve.ResolvedFrom options files s)

include h

/-- The table of a file is where the declarations of its package come from. -/
theorem Resolve.ResolvedFrom.backs
    {package : Nat}
    {p : Package}
    (hp : s.packages[package]? = some p) :
    ∃ f, files[package]? = some f ∧ (Resolve.tableOf files f).Backs package p := by
  obtain ⟨f, hf, hroots, hdecls⟩ := h.exists_file hp
  have hlength := Reference.length_decls h hf
  simp only [Schema.package, hp, Option.getD_some] at hlength
  refine ⟨f, hf, hroots, hlength, ?_, ?_, Resolve.ResolvedFrom.decl_name hdecls⟩
  · intro i d hd
    rw [hdecls i, Option.map_eq_some_iff] at hd
    obtain ⟨e, he, rfl⟩ := hd
    exact ⟨rfl, e, he, rfl, rfl⟩
  · intro i e he
    have hd := hdecls i
    rw [he] at hd
    exact ⟨_, hd, rfl, rfl⟩

theorem isForest_of_resolvedFrom
    {package : Nat}
    {p : Package}
    (hp : s.packages[package]? = some p) :
    p.IsForest package := by
  obtain ⟨f, -, hbacks⟩ := h.backs hp
  exact hbacks.isForest (Resolve.tableOf_forest files f)

/-- The package of a place, with the table that it comes from and the entry of the place. -/
theorem Resolve.ResolvedFrom.exists_entry
    {id : DeclId}
    (hid : id ∈ s.ids) :
    ∃ f e, (Resolve.tableOf files f).Backs id.package (s.package id.package) ∧
      Table.entry? (Resolve.tableOf files f) id.index = some e ∧
      s.declPath id = (Resolve.tableOf files f).pathAt id.index := by
  obtain ⟨f, e, hf, he⟩ := (Reference.mem_ids_iff h id).mp hid
  obtain ⟨p, hp, rfl, -⟩ := Reference.exists_package_of_file h hf
  obtain ⟨f', hf', hbacks⟩ := h.backs hp
  obtain rfl : f = f' := Option.some.inj (hf.symm.trans hf')
  exact ⟨f, e, hbacks, he, Reference.declPath_eq h hf id.index⟩

/-- The links of a schema without errors can be followed. -/
theorem linked_of_resolvedFrom :
    s.Linked where
  forest := fun package p hp => isForest_of_resolvedFrom h hp
  climbs := by
    intro id hid
    obtain ⟨f, e, hbacks, he, -⟩ := h.exists_entry hid
    obtain ⟨hclimbs, root, -, hlast⟩ :=
      hbacks.climbs_parents (Resolve.tableOf_forest files f) he
    refine ⟨_, hclimbs, rfl, ?_⟩
    rw [hlast, Schema.rootOf, List.getLastD_eq_getLast?, hlast]
    rfl
  rootOf := by
    intro id hid
    obtain ⟨f, e, hbacks, he, -⟩ := h.exists_entry hid
    obtain ⟨-, root, hroot, hlast⟩ := hbacks.climbs_parents (Resolve.tableOf_forest files f) he
    rw [Schema.rootOf, List.getLastD_eq_getLast?, hlast]
    exact List.mem_map_of_mem hroot
  lookup := by
    intro id hid
    obtain ⟨f, e, hbacks, he, hpath⟩ := h.exists_entry hid
    have hforest := Resolve.tableOf_forest files f
    have hleads := hforest.leads_pathAt he
    have hwalk := (hforest.walkFrom_eq_some_iff hforest.scope_roots _ id.index).mpr
      ⟨hleads.ne_nil, hleads⟩
    rw [Schema.lookup?, hpath, hbacks.find?, hwalk]
    rfl

end Resolved

/-- The declarations of files that resolve form a forest in each package: places, parents, children
and roots agree, paths and outermost declarations are found by climbing, and the path of a
declaration leads back to it. -/
theorem resolve_linked
    {options : ResolveOptions}
    {files : List SourceFile}
    {r : Resolved}
    (h : resolve options files = .ok r) :
    r.schema.Linked :=
  linked_of_resolvedFrom (Resolve.resolvedFrom_of_resolve h)

theorem resolve_linked_shapes :
    resolve Sample.options [Sample.shapes] = .ok ⟨Sample.schema, []⟩ ∧ Sample.schema.Linked :=
  ⟨Sample.resolve_shapes, resolve_linked Sample.resolve_shapes⟩

end Schemata
