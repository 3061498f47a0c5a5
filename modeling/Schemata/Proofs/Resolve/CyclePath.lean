import Schemata.Proofs.Resolve.Cycle
import Mathlib.Data.List.Chain

/-!
# The path of a warning

A warning lists the declarations of its component in the order of their
places, which need not be the order in which they require each other.  Its path
is a way around with steps left out: it goes from the first declaration back to
the first through the component, each entry leads to the next by required
fields, and between two entries other declarations of the component may come.

No steps are missing when the component has one or two declarations.  In
general none are missing exactly when each declaration requires the next one in
the order of places and the last requires the first.

**Results.** `IsCycle.exists_walk`, `isChain_closed_iff_inOrder`,
`resolve_warning_paths`.
-/

namespace Schemata
namespace Cycle

section Walks

variable {α : Type}
variable {r : α → α → Prop}

/-- Steps that lead to the start of a walk can be put in front of it. -/
theorem exists_steps_of_transGen
    {a b : α}
    (h : Relation.TransGen r a b)
    {walk : List α}
    (hwalk : (b :: walk).IsChain r) :
    ∃ steps, (a :: (steps ++ b :: walk)).IsChain r := by
  induction h using Relation.TransGen.head_induction_on with
  | single hedge =>
      exact ⟨[], List.isChain_cons_cons.mpr ⟨hedge, hwalk⟩⟩
  | @head a c hedge _ ih =>
      obtain ⟨steps, hsteps⟩ := ih
      exact ⟨c :: steps, List.isChain_cons_cons.mpr ⟨hedge, hsteps⟩⟩

/-- A list of places that lead to each other is a walk with steps left out. -/
theorem exists_walk_of_isChain
    {a : α}
    {places : List α}
    (h : (a :: places).IsChain (Relation.TransGen r)) :
    ∃ walk, (a :: walk).IsChain r ∧ places.Sublist walk ∧
      (a :: walk).getLast? = (a :: places).getLast? := by
  induction places generalizing a with
  | nil =>
      exact ⟨[], List.isChain_singleton a, .refl [], rfl⟩
  | cons b places ih =>
      obtain ⟨hleads, hrest⟩ := List.isChain_cons_cons.mp h
      obtain ⟨walk, hwalk, hsublist, hlast⟩ := ih hrest
      obtain ⟨steps, hsteps⟩ := exists_steps_of_transGen hleads hwalk
      refine ⟨steps ++ b :: walk, hsteps, ?_, ?_⟩
      · exact (hsublist.cons_cons b).trans (List.sublist_append_right steps _)
      · rw [List.getLast?_cons_cons, ← hlast, ← List.cons_append, List.getLast?_append_of_ne_nil]
        simp

end Walks

section Component

variable {s : Schema}
variable {c : Set DeclId}

/-- A requirement between two declarations of the set. -/
structure RequiresIn
    (s : Schema)
    (c : Set DeclId)
    (a b : DeclId) : Prop where
  requires : s.Requires a b
  source : a ∈ c
  target : b ∈ c

/-- What lies between declarations of a component is in the component. -/
theorem IsComponent.mem_of_between
    (h : IsComponent s c)
    {a b d : DeclId}
    (ha : a ∈ c)
    (hb : b ∈ c)
    (hto : Relation.ReflTransGen s.Requires a d)
    (hfrom : Relation.ReflTransGen s.Requires d b) :
    d ∈ c := by
  obtain ⟨root, -, rfl⟩ := h
  exact ⟨ha.1.trans hto, hfrom.trans hb.2⟩

/-- Any declaration of a cycle leads to any other and to itself without leaving the cycle. -/
theorem IsCycle.transGen_in
    (h : IsCycle s c)
    {a b : DeclId}
    (ha : a ∈ c)
    (hb : b ∈ c) :
    Relation.TransGen (RequiresIn s c) a b := by
  have hreach : Relation.ReflTransGen s.Requires a b := by
    obtain ⟨⟨root, -, rfl⟩, -⟩ := h
    exact ha.2.trans hb.1
  have hleads : Relation.TransGen s.Requires a b := (h.transGen_self ha).trans_left hreach
  induction hleads using Relation.TransGen.head_induction_on with
  | single hedge =>
      exact .single ⟨hedge, ha, hb⟩
  | @head a d hedge hrest ih =>
      have hd := h.1.mem_of_between ha hb (.single hedge) hrest.to_reflTransGen
      exact .head ⟨hedge, ha, hd⟩ (ih hd hrest.to_reflTransGen)

/-- Where there are two declarations at most, one leads to the other by a single step. -/
theorem requires_of_transGen_in
    {a b : DeclId}
    (hpair : ∀ d ∈ c, d = a ∨ d = b)
    (h : Relation.TransGen (RequiresIn s c) a b) :
    s.Requires a b := by
  suffices hfrom : ∀ x, Relation.TransGen (RequiresIn s c) x b → x = a → s.Requires a b from
    hfrom a h rfl
  intro x hx
  induction hx using Relation.TransGen.head_induction_on with
  | single hedge =>
      rintro rfl
      exact hedge.requires
  | head hedge _ ih =>
      rintro rfl
      rcases hpair _ hedge.target with heq | rfl
      · exact ih heq
      · exact hedge.requires

end Component

section Order

variable {s : Schema}

theorem Before.irrefl
    (a : DeclId) :
    ¬ Before a a := by
  unfold Before
  omega

theorem Before.asymm
    {a b : DeclId}
    (h : Before a b) :
    ¬ Before b a := by
  unfold Before at h ⊢
  omega

/-- Each declaration of the set requires the next one in the order of places, and the last one
requires the first. -/
structure InOrder
    (s : Schema)
    (c : Set DeclId) : Prop where
  next : ∀ a ∈ c, ∀ b ∈ c, Before a b → (∀ d ∈ c, Before a d → d = b ∨ Before b d) →
    s.Requires a b
  close : ∀ a ∈ c, ∀ b ∈ c, (∀ d ∈ c, d = a ∨ Before a d) → (∀ d ∈ c, d = b ∨ Before d b) →
    s.Requires b a

/-- Neighbours in a list in the order of places are those with nothing between them. -/
theorem isChain_iff_next
    {members : List DeclId}
    (hsorted : members.Pairwise Before) :
    members.IsChain s.Requires ↔
      ∀ a ∈ members, ∀ b ∈ members, Before a b →
        (∀ d ∈ members, Before a d → d = b ∨ Before b d) → s.Requires a b := by
  rw [List.isChain_iff_forall_rel_of_append_cons_cons]
  constructor
  · intro hchain a ha b hb hab hnext
    obtain ⟨before, after, rfl⟩ := List.append_of_mem ha
    obtain ⟨-, hafter, hacross⟩ := List.pairwise_append.mp hsorted
    have hmem : b ∈ after := by
      rcases List.mem_append.mp hb with hbefore | hmem
      · exact absurd (hacross b hbefore a List.mem_cons_self) hab.asymm
      · rcases List.mem_cons.mp hmem with rfl | hmem
        · exact absurd hab (Before.irrefl b)
        · exact hmem
    cases after with
    | nil =>
        cases hmem
    | cons x after =>
        obtain ⟨hax, hrest⟩ := List.pairwise_cons.mp hafter
        -- The next entry is `b`, for `b` stands behind it or is it, and nothing is between.
        have hxb : x = b := by
          rcases hnext x (by simp) (hax x List.mem_cons_self) with heq | hbx
          · exact heq
          · rcases List.mem_cons.mp hmem with rfl | hmem
            · rfl
            · exact absurd ((List.pairwise_cons.mp hrest).1 b hmem) hbx.asymm
        exact hxb ▸ hchain rfl
  · rintro hnext a b before after rfl
    obtain ⟨-, hafter, hacross⟩ := List.pairwise_append.mp hsorted
    obtain ⟨ha, hrest⟩ := List.pairwise_cons.mp hafter
    refine hnext a (by simp) b (by simp) (ha b List.mem_cons_self) fun d hd had => ?_
    rcases List.mem_append.mp hd with hbefore | hmem
    · exact absurd (hacross d hbefore a List.mem_cons_self) had.asymm
    · rcases List.mem_cons.mp hmem with rfl | hmem
      · exact absurd had (Before.irrefl d)
      · rcases List.mem_cons.mp hmem with rfl | hmem
        · exact Or.inl rfl
        · exact Or.inr ((List.pairwise_cons.mp hrest).1 d hmem)

/-- The list and its first entry again is a chain of requirements exactly when the declarations
require each other in the order of places. -/
theorem isChain_closed_iff_inOrder
    {first : DeclId}
    {rest : List DeclId}
    (hsorted : (first :: rest).Pairwise Before) :
    (first :: rest ++ [first]).IsChain s.Requires ↔ InOrder s {d | d ∈ first :: rest} := by
  have hfirst : ∀ d ∈ first :: rest, d = first ∨ Before first d := fun d hd =>
    (List.mem_cons.mp hd).imp_right ((List.pairwise_cons.mp hsorted).1 d)
  obtain hnil | ⟨front, last, hmembers⟩ := List.eq_nil_or_concat' (first :: rest)
  · cases hnil
  have hlast : ∀ d ∈ first :: rest, d = last ∨ Before d last := by
    rw [hmembers] at hsorted ⊢
    intro d hd
    rcases List.mem_append.mp hd with hfront | hd
    · exact Or.inr ((List.pairwise_append.mp hsorted).2.2 d hfront last (List.mem_singleton_self _))
    · exact Or.inl (List.mem_singleton.mp hd)
  have hmem : last ∈ first :: rest := by simp [hmembers]
  have hclosed : (first :: rest ++ [first]).IsChain s.Requires ↔
      (first :: rest).IsChain s.Requires ∧ s.Requires last first := by
    rw [List.isChain_append, hmembers, List.getLast?_concat]
    simp
  rw [hclosed, isChain_iff_next hsorted]
  constructor
  · rintro ⟨hnext, hclose⟩
    refine ⟨hnext, fun a ha b hb hleast hgreatest => ?_⟩
    have hafirst : a = first := by
      rcases hfirst a ha with heq | hbefore
      · exact heq
      · exact (hleast first List.mem_cons_self).elim Eq.symm fun h => absurd h hbefore.asymm
    have hblast : b = last := by
      rcases hlast b hb with heq | hbefore
      · exact heq
      · exact (hgreatest last hmem).elim Eq.symm fun h => absurd h hbefore.asymm
    rw [hafirst, hblast]
    exact hclose
  · intro h
    exact ⟨h.next, h.close first List.mem_cons_self last hmem hfirst hlast⟩

end Order

section Warnings

variable {s : Schema}

/-- From the first declaration of a cycle a walk goes through all of them, in the order in which they
are listed, and back to the first. -/
theorem IsCycle.exists_walk
    {first : DeclId}
    {rest : List DeclId}
    (h : IsCycle s {d | d ∈ first :: rest}) :
    ∃ walk, (first :: walk).IsChain (RequiresIn s {d | d ∈ first :: rest}) ∧
      (rest ++ [first]).Sublist walk ∧ walk.getLast? = some first := by
  have hclosed : ∀ d ∈ first :: (rest ++ [first]), d ∈ first :: rest := by simp [or_comm]
  have hchain : (first :: (rest ++ [first])).IsChain
      (Relation.TransGen (RequiresIn s {d | d ∈ first :: rest})) := by
    rw [List.isChain_iff_forall_rel_of_append_cons_cons]
    intro a b before after heq
    exact h.transGen_in (hclosed a (by simp [heq])) (hclosed b (by simp [heq]))
  obtain ⟨walk, hwalk, hsublist, hlast⟩ := exists_walk_of_isChain hchain
  refine ⟨walk, hwalk, hsublist, ?_⟩
  have hne : walk ≠ [] := by
    rintro rfl
    simp at hsublist
  rw [List.getLast?_cons_of_ne_nil hne] at hlast
  rw [hlast, ← List.cons_append, List.getLast?_concat]

/-- No steps are missing between two declarations at most. -/
theorem IsCycle.isChain_of_short
    {first : DeclId}
    {rest : List DeclId}
    (h : IsCycle s {d | d ∈ first :: rest})
    (hshort : rest.length ≤ 1) :
    (first :: rest ++ [first]).IsChain s.Requires := by
  have hstep : ∀ a b, (∀ d ∈ first :: rest, d = a ∨ d = b) → a ∈ first :: rest →
      b ∈ first :: rest → s.Requires a b := fun a b hpair ha hb =>
    requires_of_transGen_in hpair (h.transGen_in ha hb)
  cases rest with
  | nil =>
      simpa using hstep first first (by simp) (by simp) (by simp)
  | cons second rest =>
      obtain rfl : rest = [] := by
        rw [List.length_cons] at hshort
        exact List.length_eq_zero_iff.mp (by omega)
      have hto := hstep first second (by simp) (by simp) (by simp)
      have hback := hstep second first (by simp [or_comm]) (by simp) (by simp)
      simpa using ⟨hto, hback⟩

end Warnings

end Cycle

/-- The path of a warning lists a cycle in the order of places.  It is a walk of required fields through
the cycle, from the first declaration back to it, with steps left out; and it is such a walk itself
exactly when the declarations require each other in the order of places, as one or two always do. -/
theorem resolve_warning_paths
    {options : ResolveOptions}
    {files : List SourceFile}
    {r : Resolved}
    (h : resolve options files = .ok r)
    {w : RequiredCycle}
    (hw : w ∈ r.warnings) :
    ∃ first rest, Cycle.IsCycle r.schema {d | d ∈ first :: rest} ∧
      (first :: rest).Pairwise Cycle.Before ∧
      Cycle.Describes r.schema (first :: rest) w ∧
      (∃ walk, (first :: walk).IsChain (Cycle.RequiresIn r.schema {d | d ∈ first :: rest}) ∧
        (rest ++ [first]).Sublist walk ∧ walk.getLast? = some first) ∧
      ((first :: rest ++ [first]).IsChain r.schema.Requires ↔
        Cycle.InOrder r.schema {d | d ∈ first :: rest}) ∧
      (rest.length ≤ 1 → (first :: rest ++ [first]).IsChain r.schema.Requires) := by
  have hnames := namesExist_of_resolvedFrom (Resolve.resolvedFrom_of_resolve h)
  rw [warnings_of_resolve h] at hw
  obtain ⟨c, hcycle, members, hsorted, rfl, hdescribes⟩ :=
    (Cycle.exact_of_namesExist hnames).exists_warns hw
  obtain ⟨first, rest, rfl, hwritten⟩ := hdescribes
  exact ⟨first, rest, hcycle, hsorted, ⟨first, rest, rfl, hwritten⟩, hcycle.exists_walk,
    Cycle.isChain_closed_iff_inOrder hsorted, hcycle.isChain_of_short⟩

theorem resolve_warning_paths_rings :
    ⟨["Key", "Ring", "Key"], ⟨0, 0, 10⟩⟩ ∈ Sample.ringWarnings ∧
      ∃ first rest walk,
        Cycle.Describes Sample.ringSchema (first :: rest) ⟨["Key", "Ring", "Key"], ⟨0, 0, 10⟩⟩ ∧
          (first :: walk).IsChain
            (Cycle.RequiresIn Sample.ringSchema {d | d ∈ first :: rest}) ∧
          (rest ++ [first]).Sublist walk := by
  have hmem : ⟨["Key", "Ring", "Key"], ⟨0, 0, 10⟩⟩ ∈ Sample.ringWarnings := List.mem_cons_self
  obtain ⟨first, rest, -, -, hdescribes, ⟨walk, hwalk, hsublist, -⟩, -⟩ :=
    resolve_warning_paths Sample.resolve_rings hmem
  exact ⟨hmem, first, rest, walk, hdescribes, hwalk, hsublist⟩

namespace Sample

/-- A file with three types, each of which needs the one declared before it or, for the first, the
last. -/
def relay : SourceFile :=
  { file := 0
    identity := ⟨⟨["relay"]⟩, none⟩
    tree :=
      { doc := []
        imports := []
        decls :=
          [declAt 0 "A" (.type [link "c" "C"]), declAt 20 "B" (.type [link "a" "A"]),
            declAt 40 "C" (.type [link "b" "B"])] } }

/-- The schema that the file resolves to. -/
def relaySchema : Schema :=
  ⟨[{ identity := ⟨⟨["relay"]⟩, none⟩
      ns := ⟨["relay"], none⟩
      doc := []
      decls :=
        [⟨⟨0, 0⟩, "A", [], none, [], .type [required "c" (.decl ⟨0, 2⟩)], ⟨0, 0, 10⟩⟩,
          ⟨⟨0, 1⟩, "B", [], none, [], .type [required "a" (.decl ⟨0, 0⟩)], ⟨0, 20, 30⟩⟩,
          ⟨⟨0, 2⟩, "C", [], none, [], .type [required "b" (.decl ⟨0, 1⟩)], ⟨0, 40, 50⟩⟩]
      roots := [0, 1, 2] }]⟩

end Sample

/-- The path A, B, C, A is printed, and it cannot be followed: A requires C and not B. -/
theorem exists_path_off_cycle :
    resolve Sample.options [Sample.relay] =
        .ok ⟨Sample.relaySchema, [⟨["A", "B", "C", "A"], ⟨0, 0, 10⟩⟩]⟩ ∧
      ¬ ∃ path : List DeclId,
        path.map (fun id => String.intercalate "::" (Sample.relaySchema.declPath id)) =
            ["A", "B", "C", "A"] ∧
          path.IsChain Sample.relaySchema.Requires := by
  refine ⟨by cbv, ?_⟩
  rintro ⟨path, hnames, hchain⟩
  obtain ⟨a, path, rfl, ha, hnames⟩ := List.map_eq_cons_iff.mp hnames
  obtain ⟨b, path, rfl, hb, -⟩ := List.map_eq_cons_iff.mp hnames
  have hedge := (List.isChain_cons_cons.mp hchain).1
  have hids : ∀ id ∈ Sample.relaySchema.ids, id = ⟨0, 0⟩ ∨ id = ⟨0, 1⟩ ∨ id = ⟨0, 2⟩ := by
    decide
  obtain ⟨f, hf, -, htype⟩ := hedge.field
  rcases hids a hedge.source.1 with rfl | rfl | rfl
  · obtain rfl := List.mem_singleton.mp hf
    obtain rfl := TypeRef.decl.inj htype
    exact absurd hb (by decide)
  · exact absurd ha (by decide)
  · exact absurd ha (by decide)

end Schemata
