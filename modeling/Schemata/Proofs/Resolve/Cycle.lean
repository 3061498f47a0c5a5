import Schemata.Proofs.Component.Search
import Schemata.Proofs.Resolve.Requirement
import Schemata.Proofs.Resolve.WellFormed

/-!
# Warnings are the cycles of required fields

The graph of a schema has its types and tuples as nodes and `Requires` as
edges.  Declarations that lead to each other form a component, and a component
is a cycle when it has more than one declaration or a declaration that requires
itself.  There is one warning for each cycle and no other: it lists the
declarations of the cycle in the order of their places, and the first one again.

**Results.** `isComponent_iff`, `isCycle_iff`, `exact_of_namesExist`,
`resolve_warnings`.
-/

namespace Schemata
namespace Cycle

/-- A component of the graph: the declarations that a type or tuple leads to and that lead back. -/
def IsComponent
    (s : Schema)
    (c : Set DeclId) : Prop :=
  ∃ d, s.IsStruct d ∧
    c = {t | Relation.ReflTransGen s.Requires d t ∧ Relation.ReflTransGen s.Requires t d}

/-- A component with more than one declaration, or with one that requires itself. -/
def IsCycle
    (s : Schema)
    (c : Set DeclId) : Prop :=
  IsComponent s c ∧ (c.Nontrivial ∨ ∃ d ∈ c, s.Requires d d)

/-- The place comes before the other, in its package or in an earlier one. -/
def Before
    (a b : DeclId) : Prop :=
  a.package < b.package ∨ a.package = b.package ∧ a.index < b.index

/-- The warning names the declarations in their order and the first one again, and it stands at the
first one. -/
def Describes
    (s : Schema)
    (members : List DeclId)
    (w : RequiredCycle) : Prop :=
  ∃ first rest, members = first :: rest ∧
    w.path = (members ++ [first]).map (fun id => String.intercalate "::" (s.declPath id)) ∧
    w.span = (s.decl first).span

/-- The components that are found divide the types and tuples, and the warnings are those of the
cycles among them, each once, in the order of their places in the files. -/
structure Exact
    (s : Schema)
    (warnings : List RequiredCycle) : Prop where
  disjoint : (components s).flatten.Nodup
  covers : ∀ d, d ∈ (components s).flatten ↔ s.IsStruct d
  components : ∀ members ∈ components s, IsComponent s {d | d ∈ members}
  warned : ∃ cycles : List (List DeclId), cycles.Nodup ∧
    (∀ c, IsCycle s c ↔ ∃ members ∈ cycles, c = {d | d ∈ members}) ∧
    (∀ members ∈ cycles, members.Pairwise Before) ∧
    List.Forall₂ (Describes s) cycles warnings
  ordered : warnings.Pairwise fun v w =>
    v.span.file < w.span.file ∨ v.span.file = w.span.file ∧ v.span.start ≤ w.span.start

/-- A declaration of a cycle leads back to itself. -/
theorem IsCycle.transGen_self
    {s : Schema}
    {c : Set DeclId}
    (h : IsCycle s c)
    {t : DeclId}
    (ht : t ∈ c) :
    Relation.TransGen s.Requires t t := by
  obtain ⟨⟨d, -, rfl⟩, hcycle⟩ := h
  have hreach : ∀ u, Relation.ReflTransGen s.Requires d u ∧ Relation.ReflTransGen s.Requires u d →
      Relation.ReflTransGen s.Requires t u ∧ Relation.ReflTransGen s.Requires u t := fun u hu =>
    ⟨ht.2.trans hu.1, hu.2.trans ht.1⟩
  rcases hcycle with hnontrivial | ⟨u, hu, hself⟩
  · obtain ⟨u, hu, hne⟩ := hnontrivial.exists_ne t
    obtain ⟨hto, hback⟩ := hreach u hu
    rcases Relation.reflTransGen_iff_eq_or_transGen.mp hto with heq | hto
    · exact absurd heq hne
    · exact hto.trans_left hback
  · obtain ⟨hto, hback⟩ := hreach u hu
    exact Relation.TransGen.trans_left (Relation.TransGen.tail' hto hself) hback

/-- A declaration that leads back to itself is in a cycle. -/
theorem exists_isCycle_of_transGen
    {s : Schema}
    {t : DeclId}
    (h : Relation.TransGen s.Requires t t) :
    ∃ c, IsCycle s c ∧ t ∈ c := by
  obtain ⟨u, hedge, hback⟩ := Relation.TransGen.head'_iff.mp h
  refine ⟨_, ⟨⟨t, hedge.source, rfl⟩, ?_⟩, .refl, .refl⟩
  by_cases heq : u = t
  · subst heq
    exact Or.inr ⟨u, ⟨.refl, .refl⟩, hedge⟩
  · exact Or.inl ⟨u, ⟨.single hedge, hback⟩, t, ⟨.refl, .refl⟩, heq⟩

/-- The warning is about the cycle. -/
def Warns
    (s : Schema)
    (w : RequiredCycle)
    (c : Set DeclId) : Prop :=
  IsCycle s c ∧ ∃ members, members.Pairwise Before ∧ c = {d | d ∈ members} ∧ Describes s members w

/-- Every warning is about a cycle. -/
theorem Exact.exists_warns
    {s : Schema}
    {warnings : List RequiredCycle}
    (h : Exact s warnings)
    {w : RequiredCycle}
    (hw : w ∈ warnings) :
    ∃ c, Warns s w c := by
  obtain ⟨cycles, -, hcycles, hordered, hdescribes⟩ := h.warned
  obtain ⟨i, hlt, rfl⟩ := List.getElem_of_mem hw
  have hlt' : i < cycles.length := hdescribes.length_eq.symm ▸ hlt
  have hmem : cycles[i] ∈ cycles := List.getElem_mem hlt'
  exact ⟨_, (hcycles _).mpr ⟨_, hmem, rfl⟩, _, hordered _ hmem, rfl, hdescribes.get hlt' hlt⟩

/-- Every cycle has a warning. -/
theorem Exact.exists_warning
    {s : Schema}
    {warnings : List RequiredCycle}
    (h : Exact s warnings)
    {c : Set DeclId}
    (hc : IsCycle s c) :
    ∃ w ∈ warnings, Warns s w c := by
  obtain ⟨cycles, -, hcycles, hordered, hdescribes⟩ := h.warned
  obtain ⟨members, hmembers, rfl⟩ := (hcycles c).mp hc
  obtain ⟨i, hlt, rfl⟩ := List.getElem_of_mem hmembers
  have hlt' : i < warnings.length := hdescribes.length_eq ▸ hlt
  exact ⟨warnings[i], List.getElem_mem hlt', hc, _, hordered _ hmembers, rfl,
    hdescribes.get hlt hlt'⟩

section Graph

variable {s : Schema}

theorem mem_nodes_iff
    (id : DeclId) :
    id ∈ nodes s ↔ s.IsStruct id := by
  rw [nodes, List.mem_filter, Schema.isStruct_iff]

theorem mem_edges_iff
    (d t : DeclId) :
    t ∈ edges s d ↔ (s.decl t).body.isStruct = true ∧
      ∃ f ∈ (s.decl d).fields, f.optional = false ∧ f.type = .decl t := by
  simp only [edges, List.mem_filterMap, List.mem_filter, Field.isRequired, Bool.not_eq_true']
  constructor
  · rintro ⟨f, ⟨hf, hrequired⟩, hfound⟩
    split at hfound
    · rename_i target htype
      split at hfound
      · rename_i hstruct
        obtain rfl := Option.some.inj hfound
        exact ⟨hstruct, f, hf, hrequired, htype⟩
      · cases hfound
    · cases hfound
  · rintro ⟨hstruct, f, hf, hrequired, htype⟩
    exact ⟨f, ⟨hf, hrequired⟩, by simp [htype, hstruct]⟩

theorem isStruct_of_reach
    {d t : DeclId}
    (hd : s.IsStruct d)
    (h : Relation.ReflTransGen s.Requires d t) :
    s.IsStruct t := by
  cases h with
  | refl =>
      exact hd
  | tail _ hedge =>
      exact hedge.target

variable (hnames : s.NamesExist)

include hnames

/-- The edges that the search follows are those of the graph. -/
theorem mem_edges_iff_requires
    {d : DeclId}
    (hd : s.IsStruct d)
    (t : DeclId) :
    t ∈ edges s d ↔ s.Requires d t := by
  rw [mem_edges_iff]
  constructor
  · rintro ⟨hstruct, f, hf, hrequired, htype⟩
    have hmentioned : t ∈ f.type.mentioned := by
      rw [htype]
      simp [TypeRef.mentioned, TypeRef.parts, TypeRef.decl?]
    have ht := hnames d hd.1 f hf t hmentioned
    exact ⟨hd, (Schema.isStruct_iff t).mpr ⟨ht, hstruct⟩, f, hf, hrequired, htype⟩
  · intro h
    exact ⟨((Schema.isStruct_iff t).mp h.target).2, h.field⟩

theorem nodes_closed
    (a : DeclId)
    (ha : a ∈ nodes s)
    (b : DeclId)
    (hb : b ∈ edges s a) :
    b ∈ nodes s := by
  rw [mem_nodes_iff] at ha ⊢
  exact ((mem_edges_iff_requires hnames ha b).mp hb).target

theorem leads_iff
    {d : DeclId}
    (hd : s.IsStruct d)
    (t : DeclId) :
    Component.Leads (edges s) d t ↔ Relation.ReflTransGen s.Requires d t := by
  constructor
  · intro h
    induction h with
    | refl =>
        exact Relation.ReflTransGen.refl
    | @tail a b hreach hedge ih =>
        have ha : a ∈ nodes s :=
          Component.Leads.mem_of_closed (nodes_closed hnames) hreach ((mem_nodes_iff d).mpr hd)
        exact ih.tail ((mem_edges_iff_requires hnames ((mem_nodes_iff a).mp ha) b).mp hedge)
  · intro h
    induction h with
    | refl =>
        exact Relation.ReflTransGen.refl
    | @tail a b _ hedge ih =>
        exact ih.tail ((mem_edges_iff_requires hnames hedge.source b).mpr hedge)

theorem perm_components :
    (components s).flatten.Perm (nodes s) :=
  Component.perm_flatten_all (nodes_closed hnames) (s.nodup_ids.filter _)

theorem nodup_components :
    (components s).flatten.Nodup :=
  (perm_components hnames).nodup_iff.mpr (s.nodup_ids.filter _)

theorem mem_components_iff
    (d : DeclId) :
    d ∈ (components s).flatten ↔ s.IsStruct d := by
  rw [(perm_components hnames).mem_iff, mem_nodes_iff]

/-- The members of a component are what any of them leads to and back. -/
theorem setOf_members
    {members : List DeclId}
    (hmembers : members ∈ components s)
    {d : DeclId}
    (hd : d ∈ members) :
    {t | t ∈ members} =
      {t | Relation.ReflTransGen s.Requires d t ∧ Relation.ReflTransGen s.Requires t d} := by
  have hcomponent := Component.isComponent_of_mem_all (nodes_closed hnames) hmembers
  have hstruct : s.IsStruct d :=
    (mem_components_iff hnames d).mp (List.mem_flatten.mpr ⟨members, hmembers, hd⟩)
  ext t
  show t ∈ members ↔ _
  rw [hcomponent.mem_iff d hd t, leads_iff hnames hstruct]
  refine and_congr_right fun hreach => ?_
  exact leads_iff hnames (isStruct_of_reach hstruct hreach) d

/-- The components of the graph are those that are found. -/
theorem isComponent_iff
    (c : Set DeclId) :
    IsComponent s c ↔ ∃ members ∈ components s, c = {d | d ∈ members} := by
  constructor
  · rintro ⟨d, hd, rfl⟩
    obtain ⟨members, hmembers, hmem⟩ :=
      List.mem_flatten.mp ((mem_components_iff hnames d).mpr hd)
    exact ⟨members, hmembers, (setOf_members hnames hmembers hmem).symm⟩
  · rintro ⟨members, hmembers, rfl⟩
    have hcomponent := Component.isComponent_of_mem_all (nodes_closed hnames) hmembers
    obtain ⟨d, hd⟩ := List.exists_mem_of_ne_nil members hcomponent.nonempty
    refine ⟨d, ?_, setOf_members hnames hmembers hd⟩
    exact (mem_components_iff hnames d).mp (List.mem_flatten.mpr ⟨members, hmembers, hd⟩)

end Graph

section Cycles

variable {s : Schema}

theorem nontrivial_iff_of_nodup
    {members : List DeclId}
    (hnodup : members.Nodup) :
    {d | d ∈ members}.Nontrivial ↔ 1 < members.length := by
  cases members with
  | nil =>
      simp [Set.Nontrivial]
  | cons a rest =>
      cases rest with
      | nil =>
          simp [Set.Nontrivial]
      | cons b rest =>
          have hne : a ≠ b := by
            rintro rfl
            simp at hnodup
          simp only [List.length_cons, Nat.lt_add_left_iff_pos, Nat.zero_lt_succ, iff_true]
          exact ⟨a, List.mem_cons_self, b, by simp, hne⟩

variable (hnames : s.NamesExist)

include hnames

theorem nodup_of_mem_components
    {members : List DeclId}
    (hmembers : members ∈ components s) :
    members.Nodup :=
  (List.nodup_flatten.mp (nodup_components hnames)).1 members hmembers

theorem isCyclic_iff
    {members : List DeclId}
    (hmembers : members ∈ components s) :
    isCyclic s members = true ↔
      {d | d ∈ members}.Nontrivial ∨ ∃ d ∈ members, s.Requires d d := by
  have hstruct : ∀ d ∈ members, s.IsStruct d := fun d hd =>
    (mem_components_iff hnames d).mp (List.mem_flatten.mpr ⟨members, hmembers, hd⟩)
  have hself : ∀ d ∈ members, ((edges s d).contains d = true ↔ s.Requires d d) := by
    intro d hd
    rw [List.contains_iff_mem]
    exact mem_edges_iff_requires hnames (hstruct d hd) d
  rw [nontrivial_iff_of_nodup (nodup_of_mem_components hnames hmembers), isCyclic,
    Bool.or_eq_true, decide_eq_true_iff]
  refine or_congr_right' fun hsmall => ?_
  cases members with
  | nil =>
      simp
  | cons d rest =>
      have hrest : rest = [] := by
        rw [List.length_cons] at hsmall
        exact List.length_eq_zero_iff.mp (by omega)
      subst hrest
      simpa using hself d List.mem_cons_self

/-- The cycles of the graph are those that are found. -/
theorem isCycle_iff
    (c : Set DeclId) :
    IsCycle s c ↔ ∃ members ∈ cycles s, c = {d | d ∈ members} := by
  have hsame : ∀ members : List DeclId,
      {d | d ∈ members.mergeSort DeclId.le} = {d | d ∈ members} := by
    intro members
    ext d
    exact List.mem_mergeSort
  constructor
  · rintro ⟨hcomponent, hcycle⟩
    obtain ⟨members, hmembers, rfl⟩ := (isComponent_iff hnames c).mp hcomponent
    refine ⟨members.mergeSort DeclId.le, List.mem_map_of_mem ?_, (hsame members).symm⟩
    exact List.mem_filter.mpr ⟨hmembers, (isCyclic_iff hnames hmembers).mpr hcycle⟩
  · rintro ⟨sorted, hsorted, rfl⟩
    obtain ⟨members, hmem, rfl⟩ := List.mem_map.mp hsorted
    obtain ⟨hmembers, hcyclic⟩ := List.mem_filter.mp hmem
    rw [hsame members]
    exact ⟨(isComponent_iff hnames _).mpr ⟨members, hmembers, rfl⟩,
      (isCyclic_iff hnames hmembers).mp hcyclic⟩

theorem ne_nil_of_mem_cycles
    {members : List DeclId}
    (h : members ∈ cycles s) :
    members ≠ [] := by
  obtain ⟨component, hmem, rfl⟩ := List.mem_map.mp h
  have hcomponent := Component.isComponent_of_mem_all (nodes_closed hnames)
    (List.mem_filter.mp hmem).1
  rw [Ne, ← List.length_eq_zero_iff, List.length_mergeSort, List.length_eq_zero_iff]
  exact hcomponent.nonempty

/-- Cycles have no declaration in common. -/
theorem disjoint_cycles :
    (cycles s).Pairwise List.Disjoint := by
  have hdisjoint := (List.nodup_flatten.mp (nodup_components hnames)).2
  unfold cycles
  rw [List.pairwise_map]
  refine (hdisjoint.filter _).imp ?_
  intro a b hab d ha hb
  exact hab (List.mem_mergeSort.mp ha) (List.mem_mergeSort.mp hb)

theorem nodup_cycles :
    (cycles s).Nodup := by
  refine (disjoint_cycles hnames).imp_of_mem ?_
  rintro a b ha - hab rfl
  obtain ⟨d, hd⟩ := List.exists_mem_of_ne_nil a (ne_nil_of_mem_cycles hnames ha)
  exact hab hd hd

end Cycles

section Order

theorem le_iff
    (a b : DeclId) :
    a.le b = true ↔ a.package < b.package ∨ a.package = b.package ∧ a.index ≤ b.index := by
  simp [DeclId.le]

theorem before_of_le
    {a b : DeclId}
    (h : a.le b = true)
    (hne : a ≠ b) :
    Before a b := by
  rw [le_iff] at h
  rcases h with hlt | ⟨heq, hle⟩
  · exact Or.inl hlt
  · refine Or.inr ⟨heq, lt_of_le_of_ne hle ?_⟩
    intro hindex
    obtain ⟨package, index⟩ := a
    obtain ⟨package', index'⟩ := b
    simp only at heq hindex
    exact hne (by rw [heq, hindex])

/-- The members of a cycle stand in the order of their places. -/
theorem pairwise_before
    {s : Schema}
    (hnames : s.NamesExist)
    {members : List DeclId}
    (h : members ∈ cycles s) :
    members.Pairwise Before := by
  obtain ⟨component, hmem, rfl⟩ := List.mem_map.mp h
  have hnodup : (component.mergeSort DeclId.le).Nodup :=
    (List.mergeSort_perm component DeclId.le).nodup_iff.mpr
      (nodup_of_mem_components hnames (List.mem_filter.mp hmem).1)
  have hsorted : (component.mergeSort DeclId.le).Pairwise fun a b => a.le b = true := by
    refine List.pairwise_mergeSort ?_ ?_ component
    · intro a b c hab hbc
      rw [le_iff] at hab hbc ⊢
      omega
    · intro a b
      rw [Bool.or_eq_true, le_iff, le_iff]
      omega
  exact hsorted.imp₂ (fun a b hle hne => before_of_le hle hne) hnodup

theorem precedes_iff
    (v w : RequiredCycle) :
    precedes v w = true ↔ v.span.file < w.span.file ∨
      v.span.file = w.span.file ∧ v.span.start ≤ w.span.start := by
  simp [precedes]

/-- The warnings stand in the order of their places in the files. -/
theorem pairwise_warnings
    (s : Schema) :
    (warnings s).Pairwise fun v w =>
      v.span.file < w.span.file ∨ v.span.file = w.span.file ∧ v.span.start ≤ w.span.start := by
  unfold warnings
  dsimp only
  have htrans : ∀ u v w, precedes u v = true → precedes v w = true → precedes u w = true := by
    intro u v w huv hvw
    rw [precedes_iff] at huv hvw ⊢
    omega
  have htotal : ∀ v w, (precedes v w || precedes w v) = true := by
    intro v w
    rw [Bool.or_eq_true, precedes_iff, precedes_iff]
    omega
  exact (List.pairwise_mergeSort htrans htotal _).imp fun h => (precedes_iff _ _).mp h

/-- The warning of the members of a cycle. -/
def warningOf
    (s : Schema) :
    List DeclId → RequiredCycle
  | first :: rest => warning s first rest
  | [] => ⟨[], default⟩

theorem describes_warningOf
    (s : Schema)
    {members : List DeclId}
    (h : members ≠ []) :
    Describes s members (warningOf s members) := by
  obtain ⟨first, rest, rfl⟩ := List.exists_cons_of_ne_nil h
  exact ⟨first, rest, rfl, rfl, rfl⟩

/-- The warnings are those of the cycles, in some order. -/
theorem exists_describes
    {s : Schema}
    (hnames : s.NamesExist) :
    ∃ found : List (List DeclId), found.Perm (cycles s) ∧
      List.Forall₂ (Describes s) found (warnings s) := by
  have hfilterMap : ∀ found : List (List DeclId), (∀ members ∈ found, members ≠ []) →
      (found.filterMap fun members =>
        match members with
        | first :: rest => some (warning s first rest)
        | [] => none) = found.map (warningOf s) := by
    intro found hne
    rw [← List.filterMap_eq_map]
    refine List.filterMap_congr fun members hmem => ?_
    obtain ⟨first, rest, rfl⟩ := List.exists_cons_of_ne_nil (hne members hmem)
    rfl
  have hne : ∀ members ∈ cycles s, members ≠ [] := fun members hmem =>
    ne_nil_of_mem_cycles hnames hmem
  have hperm := List.mergeSort_perm (cycles s) fun a b => precedes (warningOf s a) (warningOf s b)
  refine ⟨(cycles s).mergeSort fun a b => precedes (warningOf s a) (warningOf s b), hperm, ?_⟩
  have hwarnings : warnings s = ((cycles s).mergeSort fun a b =>
      precedes (warningOf s a) (warningOf s b)).map (warningOf s) := by
    rw [List.map_mergeSort (s := precedes) (fun a _ b _ => rfl), ← hfilterMap (cycles s) hne]
    rfl
  rw [hwarnings, List.forall₂_map_right_iff, List.forall₂_same]
  intro members hmem
  exact describes_warningOf s (hne members (hperm.mem_iff.mp hmem))

end Order

/-- Where fields mention declarations of the schema only, the warnings are exactly the cycles. -/
theorem exact_of_namesExist
    {s : Schema}
    (hnames : s.NamesExist) :
    Exact s (warnings s) where
  disjoint := nodup_components hnames
  covers := mem_components_iff hnames
  components := fun members hmembers => (isComponent_iff hnames _).mpr ⟨members, hmembers, rfl⟩
  warned := by
    obtain ⟨found, hperm, hdescribes⟩ := exists_describes hnames
    refine ⟨found, hperm.nodup_iff.mpr (nodup_cycles hnames), fun c => ?_, ?_, hdescribes⟩
    · rw [isCycle_iff hnames]
      simp only [hperm.mem_iff]
    · intro members hmem
      exact pairwise_before hnames (hperm.mem_iff.mp hmem)
  ordered := pairwise_warnings s

end Cycle

theorem warnings_of_resolve
    {options : ResolveOptions}
    {files : List SourceFile}
    {r : Resolved}
    (h : resolve options files = .ok r) :
    r.warnings = Cycle.warnings r.schema := by
  obtain ⟨-, rfl⟩ := (Resolve.resolve_eq_ok_iff options files r).mp h
  rfl

/-- The warnings of a resolution are exactly the cycles of required fields. -/
theorem resolve_warnings
    {options : ResolveOptions}
    {files : List SourceFile}
    {r : Resolved}
    (h : resolve options files = .ok r) :
    Cycle.Exact r.schema r.warnings := by
  have hnames := namesExist_of_resolvedFrom (Resolve.resolvedFrom_of_resolve h)
  rw [warnings_of_resolve h]
  exact Cycle.exact_of_namesExist hnames

namespace Sample

/-- A declaration of a sample file, at a place. -/
def declAt
    (start : Nat)
    (name : String)
    (body : Tree.Body Tree.Decl) :
    Tree.Decl :=
  ⟨[], [], ⟨name, default⟩, body, ⟨0, start, start + 10⟩⟩

/-- A required field of a sample file whose type is a name. -/
def link
    (name target : String) :
    Tree.Member Tree.Decl :=
  field name false (.name ⟨none, [target], default⟩)

/-- A file with a type and a tuple that need each other, a type that needs itself, and a type that
only leads to a cycle. -/
def rings : SourceFile :=
  { file := 0
    identity := ⟨⟨["rings"]⟩, none⟩
    tree :=
      { doc := []
        imports := []
        decls :=
          [declAt 0 "Key" (.type [link "ring" "Ring"]),
            declAt 20 "Ring" (.tuple [link "key" "Key"]),
            declAt 40 "Loop" (.type [link "next" "Loop"]),
            declAt 60 "Case" (.type [field "size" false (.primitive .u32), link "key" "Key"])] } }

/-- A required field of a sample schema. -/
def required
    (name : String)
    (type : TypeRef) :
    Field :=
  ⟨name, name, type, false, [], default⟩

/-- The schema that the file with cycles resolves to. -/
def ringSchema : Schema :=
  ⟨[{ identity := ⟨⟨["rings"]⟩, none⟩
      ns := ⟨["rings"], none⟩
      doc := []
      decls :=
        [⟨⟨0, 0⟩, "Key", [], none, [], .type [required "ring" (.decl ⟨0, 1⟩)], ⟨0, 0, 10⟩⟩,
          ⟨⟨0, 1⟩, "Ring", [], none, [], .tuple [required "key" (.decl ⟨0, 0⟩)], ⟨0, 20, 30⟩⟩,
          ⟨⟨0, 2⟩, "Loop", [], none, [], .type [required "next" (.decl ⟨0, 2⟩)], ⟨0, 40, 50⟩⟩,
          ⟨⟨0, 3⟩, "Case", [], none, [],
            .type [required "size" (.primitive .u32), required "key" (.decl ⟨0, 0⟩)],
            ⟨0, 60, 70⟩⟩]
      roots := [0, 1, 2, 3] }]⟩

/-- The warnings of the file with cycles. -/
def ringWarnings : List RequiredCycle :=
  [⟨["Key", "Ring", "Key"], ⟨0, 0, 10⟩⟩, ⟨["Loop", "Loop"], ⟨0, 40, 50⟩⟩]

theorem resolve_rings :
    resolve options [rings] = .ok ⟨ringSchema, ringWarnings⟩ := by
  cbv

end Sample

theorem resolve_warnings_rings :
    resolve Sample.options [Sample.rings] = .ok ⟨Sample.ringSchema, Sample.ringWarnings⟩ ∧
      Cycle.Exact Sample.ringSchema Sample.ringWarnings :=
  ⟨Sample.resolve_rings, resolve_warnings Sample.resolve_rings⟩

end Schemata
