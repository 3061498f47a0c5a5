import Schemata.Proofs.Resolve.Forest

/-!
# Paths in a table

The entries of a table form a forest, and siblings have distinct names.  So
the names on the way from a root determine an entry, and walking along names
is the same as extending a path.  `Leads path i` says that the path leads to
the entry `i`.

The scopes around an entry belong to the beginnings of its path: the entries
directly inside an entry with the path `p` are those with a path `p ++ [name]`,
and the roots are those with a path `[name]`.  Looking a name up in the nearest
scope that has all of it is then a statement about paths alone, `Nearest`.

**Results.** `walkFrom_eq_some_iff`, `findSome?_scopes_eq_some_iff`,
`Leads.pathAt`.
-/

namespace Schemata

section Enclosing

variable {parent : Nat → Option Nat}

theorem enclosing_succ
    (hparent : ∀ i p, parent i = some p → p < i)
    {n i : Nat}
    (hi : i < n) :
    enclosing parent (n + 1) i = enclosing parent n i := by
  induction n generalizing i with
  | zero =>
      omega
  | succ n ih =>
      rw [enclosing, enclosing]
      cases hp : parent i with
      | none =>
          rfl
      | some p =>
          have hlt := hparent i p hp
          simp only [ih (show p < n by omega)]

/-- Where a parent comes before its children, the bound does not matter. -/
theorem enclosing_eq
    (hparent : ∀ i p, parent i = some p → p < i)
    {n i : Nat}
    (hi : i < n) :
    enclosing parent n i =
      i :: (match parent i with
        | some p => enclosing parent n p
        | none => []) := by
  cases n with
  | zero =>
      omega
  | succ n =>
      rw [enclosing]
      cases hp : parent i with
      | none =>
          rfl
      | some p =>
          have hlt := hparent i p hp
          simp only [enclosing_succ hparent (show p < n by omega)]

end Enclosing

theorem findSome?_cons_eq_or
    {α β : Type}
    (f : α → Option β)
    (x : α)
    (xs : List α) :
    (x :: xs).findSome? f = (f x).or (xs.findSome? f) := by
  rw [List.findSome?_cons]
  cases f x with
  | none =>
      rfl
  | some b =>
      rfl

section Nearest

/-- Of the beginnings of a path, the longest one with a property. -/
def Nearest
    (P : List String → Prop)
    (here outer : List String) : Prop :=
  outer <+: here ∧ P outer ∧
    ∀ scope, scope <+: here → outer.length < scope.length → ¬ P scope

variable {P : List String → Prop}

theorem nearest_self
    {here : List String}
    (h : P here)
    (outer : List String) :
    Nearest P here outer ↔ outer = here := by
  constructor
  · rintro ⟨hstart, -, hlongest⟩
    by_contra hne
    have hlt : outer.length < here.length := by
      rcases Nat.lt_or_ge outer.length here.length with hlt | hge
      · exact hlt
      · exact absurd (hstart.eq_of_length_le hge) hne
    exact hlongest here (List.prefix_refl here) hlt h
  · rintro rfl
    refine ⟨List.prefix_refl outer, h, fun scope hscope hlt => ?_⟩
    have hle := hscope.length_le
    omega

theorem nearest_concat
    {here : List String}
    {name : String}
    (h : ¬ P (here ++ [name]))
    (outer : List String) :
    Nearest P (here ++ [name]) outer ↔ Nearest P here outer := by
  have hcut : ∀ scope, P scope → (scope <+: here ++ [name] ↔ scope <+: here) := by
    intro scope hscope
    rw [List.prefix_concat_iff]
    constructor
    · rintro (rfl | hstart)
      · exact absurd hscope h
      · exact hstart
    · exact Or.inr
  constructor
  · rintro ⟨hstart, houter, hlongest⟩
    refine ⟨(hcut outer houter).mp hstart, houter, fun scope hscope hlt => ?_⟩
    exact hlongest scope (hscope.trans (List.prefix_append here [name])) hlt
  · rintro ⟨hstart, houter, hlongest⟩
    refine ⟨(hcut outer houter).mpr hstart, houter, fun scope hscope hlt hP => ?_⟩
    exact hlongest scope ((hcut scope hP).mp hscope) hlt hP

theorem nearest_nil
    (outer : List String) :
    Nearest P [] outer ↔ outer = [] ∧ P [] := by
  constructor
  · rintro ⟨hstart, houter, -⟩
    obtain rfl := List.prefix_nil.mp hstart
    exact ⟨rfl, houter⟩
  · rintro ⟨rfl, h⟩
    exact (nearest_self h []).mpr rfl

/-- There is a longest beginning with a property when there is one at all. -/
theorem exists_nearest_iff
    (here : List String) :
    (∃ outer, Nearest P here outer) ↔ ∃ scope, scope <+: here ∧ P scope := by
  constructor
  · rintro ⟨outer, hstart, houter, -⟩
    exact ⟨outer, hstart, houter⟩
  · rintro ⟨scope, hstart, hscope⟩
    induction here using List.reverseRecOn with
    | nil =>
        obtain rfl := List.prefix_nil.mp hstart
        exact ⟨[], (nearest_nil []).mpr ⟨rfl, hscope⟩⟩
    | append_singleton here name ih =>
        by_cases hP : P (here ++ [name])
        · exact ⟨here ++ [name], (nearest_self hP _).mpr rfl⟩
        · rcases List.prefix_concat_iff.mp hstart with rfl | hshorter
          · exact absurd hscope hP
          · obtain ⟨outer, houter⟩ := ih hshorter
            exact ⟨outer, (nearest_concat hP outer).mpr houter⟩

end Nearest

namespace Table

/-- The names on the way from a root to an entry. -/
def pathAt
    (t : Table)
    (index : Nat) :
    List String :=
  ((enclosing t.parentAt t.entries.length index).map t.nameAt).reverse

/-- The path leads from a root to the entry. -/
inductive Leads
    (t : Table) :
    List String → Nat → Prop
  | root
      {i : Nat}
      {e : Entry}
      (he : t.entry? i = some e)
      (hparent : e.parent = none) :
      Leads t [e.name] i
  | child
      {path : List String}
      {p i : Nat}
      {e : Entry}
      (hp : Leads t path p)
      (he : t.entry? i = some e)
      (hparent : e.parent = some p) :
      Leads t (path ++ [e.name]) i

section Leads

variable {t : Table}
variable {path : List String}
variable {i j : Nat}

theorem Leads.ne_nil
    (h : t.Leads path i) :
    path ≠ [] := by
  cases h with
  | root he hparent =>
      simp
  | child hp he hparent =>
      simp

theorem Leads.exists_entry
    (h : t.Leads path i) :
    ∃ e, t.entry? i = some e := by
  cases h with
  | root he hparent =>
      exact ⟨_, he⟩
  | child hp he hparent =>
      exact ⟨_, he⟩

/-- A path ends in the name of the entry that it leads to. -/
theorem nameAt_of_leads
    (above : List String)
    {name : String}
    (h : t.Leads (above ++ [name]) i) :
    t.nameAt i = name := by
  generalize hpath : above ++ [name] = path at h
  cases h with
  | root he hparent =>
      rw [nameAt_of_entry he]
      have hlast := List.append_inj' (hpath.trans (List.nil_append _).symm) rfl
      exact (List.cons.inj hlast.2).1.symm
  | child hp he hparent =>
      rw [nameAt_of_entry he]
      have hlast := List.append_inj' hpath rfl
      exact (List.cons.inj hlast.2).1.symm

/-- The beginnings of a path lead to entries as well. -/
theorem Leads.exists_of_append
    (h : t.Leads path i)
    {first second : List String}
    (hpath : path = first ++ second)
    (hfirst : first ≠ []) :
    ∃ j, t.Leads first j := by
  induction h generalizing second with
  | @root i e he hparent =>
      have hlength := congrArg List.length hpath
      have hpos := List.length_pos_iff.mpr hfirst
      have hsecond : second = [] := by
        refine List.length_eq_zero_iff.mp ?_
        simp at hlength
        omega
      rw [hsecond, List.append_nil] at hpath
      exact ⟨i, hpath ▸ Leads.root he hparent⟩
  | @child path p i e hp he hparent ih =>
      cases second using List.reverseRecOn with
      | nil =>
          rw [List.append_nil] at hpath
          exact ⟨i, hpath ▸ Leads.child hp he hparent⟩
      | append_singleton second name =>
          rw [← List.append_assoc] at hpath
          exact ih (List.append_inj' hpath rfl).1

end Leads

section Forest

variable {t : Table}
variable (hforest : t.Forest)

include hforest

theorem Forest.parent_lt
    (i p : Nat)
    (h : t.parentAt i = some p) :
    p < i := by
  unfold parentAt at h
  obtain ⟨e, he, hparent⟩ := Option.bind_eq_some_iff.mp h
  rcases hforest.placed i e he with ⟨hnone, -⟩ | ⟨p', outer, hp', hlt, -⟩
  · rw [hnone] at hparent
    cases hparent
  · obtain rfl : p = p' := Option.some.inj (hparent.symm.trans hp')
    exact hlt

theorem Forest.enclosing_of_entry
    {i : Nat}
    {e : Entry}
    (he : t.entry? i = some e) :
    enclosing t.parentAt t.entries.length i =
      i :: (match e.parent with
        | some p => enclosing t.parentAt t.entries.length p
        | none => []) := by
  have hlt := (List.getElem?_eq_some_iff.mp he).1
  have hparent : t.parentAt i = e.parent := by simp [parentAt, he]
  rw [enclosing_eq hforest.parent_lt hlt, hparent]

/-- The path that leads to an entry is the path of the entry. -/
theorem Leads.pathAt
    {path : List String}
    {i : Nat}
    (h : t.Leads path i) :
    t.pathAt i = path := by
  induction h with
  | root he hparent =>
      simp [Table.pathAt, hforest.enclosing_of_entry he, hparent, nameAt_of_entry he]
  | child hp he hparent ih =>
      rw [← ih]
      simp [Table.pathAt, hforest.enclosing_of_entry he, hparent, nameAt_of_entry he]

theorem Forest.leads_pathAt
    {i : Nat}
    {e : Entry}
    (he : t.entry? i = some e) :
    t.Leads (t.pathAt i) i := by
  induction i using Nat.strongRecOn generalizing e with
  | ind i ih =>
      rcases hforest.placed i e he with ⟨hnone, -⟩ | ⟨p, outer, hp, hlt, houter, -⟩
      · have h := Leads.root he hnone
        rwa [← Leads.pathAt hforest h] at h
      · have h := Leads.child (ih p hlt houter) he hp
        rwa [← Leads.pathAt hforest h] at h

theorem Forest.mem_roots_iff
    (i : Nat) :
    i ∈ t.roots ↔ ∃ name, t.Leads [name] i := by
  constructor
  · intro hi
    obtain ⟨e, he, hparent⟩ := hforest.roots i hi
    exact ⟨e.name, Leads.root he hparent⟩
  · rintro ⟨name, h⟩
    generalize hpath : [name] = path at h
    cases h with
    | root he hparent =>
        rcases hforest.placed i _ he with ⟨-, hmem⟩ | ⟨p, outer, hp, -⟩
        · exact hmem
        · rw [hparent] at hp
          cases hp
    | child hp he hparent =>
        have hnil := List.append_inj' ((List.nil_append _).trans hpath) rfl
        exact absurd hnil.1.symm hp.ne_nil

theorem Forest.mem_children
    {i p : Nat}
    {e : Entry}
    (he : t.entry? i = some e)
    (hparent : e.parent = some p) :
    ∃ outer, t.entry? p = some outer ∧ i ∈ outer.children := by
  rcases hforest.placed i e he with ⟨hnone, -⟩ | ⟨p', outer, hp', -, houter, hmem⟩
  · rw [hnone] at hparent
    cases hparent
  · obtain rfl : p = p' := Option.some.inj (hparent.symm.trans hp')
    exact ⟨outer, houter, hmem⟩

/-- A path leads to one entry only. -/
theorem Leads.eq
    {path : List String}
    {i j : Nat}
    (hi : t.Leads path i)
    (hj : t.Leads path j) :
    i = j := by
  induction hi generalizing j with
  | @root i e he hparent =>
      have hleads := Leads.root he hparent
      have hnames : t.nameAt i = t.nameAt j := by
        rw [nameAt_of_leads [] hleads, nameAt_of_leads [] hj]
      exact List.inj_on_of_nodup_map hforest.rootNames
        ((hforest.mem_roots_iff i).mpr ⟨_, hleads⟩) ((hforest.mem_roots_iff j).mpr ⟨_, hj⟩) hnames
  | @child path p i e hp he hparent ih =>
      have hnames : t.nameAt i = t.nameAt j := by
        rw [nameAt_of_entry he, nameAt_of_leads path hj]
      generalize hpath : path ++ [e.name] = path' at hj
      cases hj with
      | root he' hparent' =>
          have hnil := List.append_inj' (hpath.trans (List.nil_append _).symm) rfl
          exact absurd hnil.1 hp.ne_nil
      | child hq he' hparent' =>
          obtain ⟨rfl, -⟩ := List.append_inj' hpath rfl
          obtain rfl := ih hq
          obtain ⟨outer, houter, hi⟩ := hforest.mem_children he hparent
          obtain ⟨outer', houter', hj⟩ := hforest.mem_children he' hparent'
          obtain rfl : outer = outer' := Option.some.inj (houter.symm.trans houter')
          exact List.inj_on_of_nodup_map (hforest.node p outer houter).names hi hj hnames

/-- The entries whose paths extend a path by one name. -/
def Scope
    (t : Table)
    (above : List String)
    (siblings : List Nat) : Prop :=
  ∀ i, i ∈ siblings ↔ ∃ name, t.Leads (above ++ [name]) i

theorem Forest.scope_roots :
    t.Scope [] t.roots :=
  hforest.mem_roots_iff

theorem Forest.scope_children
    {above : List String}
    {p : Nat}
    (hp : t.Leads above p) :
    t.Scope above (t.childrenAt p) := by
  intro i
  obtain ⟨outer, houter⟩ := hp.exists_entry
  have hchildren : t.childrenAt p = outer.children := by simp [childrenAt, houter]
  rw [hchildren]
  constructor
  · intro hi
    obtain ⟨-, e, he, hparent, -⟩ := (hforest.node p outer houter).children i hi
    exact ⟨e.name, Leads.child hp he hparent⟩
  · rintro ⟨name, h⟩
    generalize hpath : above ++ [name] = path at h
    cases h with
    | root he hparent =>
        have hnil := List.append_inj' (hpath.trans (List.nil_append _).symm) rfl
        exact absurd hnil.1 hp.ne_nil
    | child hq he hparent =>
        obtain ⟨rfl, -⟩ := List.append_inj' hpath rfl
        obtain rfl := Leads.eq hforest hp hq
        obtain ⟨outer', houter', hmem⟩ := hforest.mem_children he hparent
        obtain rfl : outer = outer' := Option.some.inj (houter.symm.trans houter')
        exact hmem

/-- The sibling with a name is the entry at the path that ends in the name. -/
theorem Forest.find?_eq_some_iff
    {above : List String}
    {siblings : List Nat}
    (hscope : t.Scope above siblings)
    (name : String)
    (i : Nat) :
    siblings.find? (t.nameAt · == name) = some i ↔ t.Leads (above ++ [name]) i := by
  have hfound : ∀ k, siblings.find? (t.nameAt · == name) = some k →
      t.Leads (above ++ [name]) k := by
    intro k hk
    obtain ⟨other, hother⟩ := (hscope k).mp (List.mem_of_find?_eq_some hk)
    have hname : t.nameAt k = name := by simpa using List.find?_some hk
    rw [nameAt_of_leads above hother] at hname
    rwa [hname] at hother
  constructor
  · exact hfound i
  · intro h
    cases hfind : siblings.find? (t.nameAt · == name) with
    | none =>
        have hnone := List.find?_eq_none.mp hfind i ((hscope i).mpr ⟨name, h⟩)
        simp [nameAt_of_leads above h] at hnone
    | some k =>
        rw [Leads.eq hforest (hfound k hfind) h]

/-- Walking along a path from a scope is extending the path of the scope. -/
theorem Forest.walkFrom_eq_some_iff
    {above : List String}
    {siblings : List Nat}
    (hscope : t.Scope above siblings)
    (path : List String)
    (i : Nat) :
    t.walkFrom siblings path = some i ↔ path ≠ [] ∧ t.Leads (above ++ path) i := by
  induction path generalizing above siblings with
  | nil =>
      simp [walkFrom, walk]
  | cons first rest ih =>
      cases rest with
      | nil =>
          simp only [walkFrom, walk, ne_eq, reduceCtorEq, not_false_eq_true, true_and]
          exact hforest.find?_eq_some_iff hscope first i
      | cons second rest =>
          simp only [walkFrom, walk, ne_eq, reduceCtorEq, not_false_eq_true, true_and]
          have happend : above ++ first :: second :: rest =
              above ++ [first] ++ second :: rest := by simp
          cases hfind : siblings.find? (t.nameAt · == first) with
          | none =>
              simp only [reduceCtorEq, false_iff]
              intro h
              obtain ⟨k, hk⟩ := h.exists_of_append happend (by simp)
              rw [(hforest.find?_eq_some_iff hscope first k).mpr hk] at hfind
              cases hfind
          | some k =>
              have hk := (hforest.find?_eq_some_iff hscope first k).mp hfind
              have hrest := ih (hforest.scope_children hk)
              simp only [walkFrom, ne_eq, reduceCtorEq, not_false_eq_true, true_and] at hrest
              rw [hrest, happend]

theorem Forest.scopes_of_root
    {i : Nat}
    {e : Entry}
    (he : t.entry? i = some e)
    (hparent : e.parent = none) :
    t.scopes i = [t.childrenAt i, t.roots] := by
  simp [scopes, hforest.enclosing_of_entry he, hparent]

theorem Forest.scopes_of_child
    {i p : Nat}
    {e : Entry}
    (he : t.entry? i = some e)
    (hparent : e.parent = some p) :
    t.scopes i = t.childrenAt i :: t.scopes p := by
  simp [scopes, hforest.enclosing_of_entry he, hparent]

/-- One step of the search: the innermost scope, or else those around it. -/
theorem Forest.walk_or_else
    (here : List String)
    {name : String}
    {siblings : List Nat}
    (hscope : t.Scope (here ++ [name]) siblings)
    {path : List String}
    (hpath : path ≠ [])
    {outside : Option Nat}
    {i : Nat}
    (houtside : outside = some i ↔
      ∃ outer, Nearest (fun scope => ∃ k, t.Leads (scope ++ path) k) here outer ∧
        t.Leads (outer ++ path) i) :
    (t.walkFrom siblings path).or outside = some i ↔
      ∃ outer, Nearest (fun scope => ∃ k, t.Leads (scope ++ path) k) (here ++ [name]) outer ∧
        t.Leads (outer ++ path) i := by
  have hwalk := hforest.walkFrom_eq_some_iff hscope path
  cases hfound : t.walkFrom siblings path with
  | some k =>
      have hk := ((hwalk k).mp hfound).2
      simp only [Option.some_or, Option.some.injEq]
      constructor
      · rintro rfl
        exact ⟨here ++ [name], (nearest_self ⟨k, hk⟩ _).mpr rfl, hk⟩
      · rintro ⟨outer, houter, hi⟩
        obtain rfl := (nearest_self ⟨k, hk⟩ outer).mp houter
        exact Leads.eq hforest hk hi
  | none =>
      have hmissing : ¬ ∃ k, t.Leads (here ++ [name] ++ path) k := by
        rintro ⟨k, hk⟩
        rw [(hwalk k).mpr ⟨hpath, hk⟩] at hfound
        cases hfound
      rw [Option.none_or, houtside]
      constructor
      · rintro ⟨outer, houter, hi⟩
        exact ⟨outer, (nearest_concat hmissing outer).mpr houter, hi⟩
      · rintro ⟨outer, houter, hi⟩
        exact ⟨outer, (nearest_concat hmissing outer).mp houter, hi⟩

/-- The scopes around an entry are searched for the nearest one that has the whole path. -/
theorem Forest.findSome?_scopes_eq_some_iff
    {here : List String}
    {index : Nat}
    (hhere : t.Leads here index)
    {path : List String}
    (hpath : path ≠ [])
    (i : Nat) :
    (t.scopes index).findSome? (t.walkFrom · path) = some i ↔
      ∃ outer, Nearest (fun scope => ∃ k, t.Leads (scope ++ path) k) here outer ∧
        t.Leads (outer ++ path) i := by
  have hroots : t.walkFrom t.roots path = some i ↔
      ∃ outer, Nearest (fun scope => ∃ k, t.Leads (scope ++ path) k) [] outer ∧
        t.Leads (outer ++ path) i := by
    rw [hforest.walkFrom_eq_some_iff hforest.scope_roots]
    constructor
    · rintro ⟨-, h⟩
      exact ⟨[], (nearest_nil []).mpr ⟨rfl, i, h⟩, h⟩
    · rintro ⟨outer, houter, h⟩
      obtain ⟨rfl, -⟩ := (nearest_nil outer).mp houter
      exact ⟨hpath, h⟩
  induction hhere with
  | root he hparent =>
      have hscope := hforest.scope_children (Leads.root he hparent)
      rw [hforest.scopes_of_root he hparent, findSome?_cons_eq_or, List.findSome?_singleton]
      exact hforest.walk_or_else [] hscope hpath hroots
  | child hp he hparent ih =>
      have hscope := hforest.scope_children (Leads.child hp he hparent)
      rw [hforest.scopes_of_child he hparent, findSome?_cons_eq_or]
      exact hforest.walk_or_else _ hscope hpath ih

end Forest

end Table

end Schemata
