import Schemata.Component
import Mathlib.Logic.Relation
import Mathlib.Tactic

/-!
# What a search for components keeps true

A node of the graph is new, or it stands on the stack, or its component is
complete.  The nodes that are being followed stand on the stack, innermost
last, and divide it into segments.  The invariant `Search.Inv` says three
things:

* paths: a node that is being followed leads to everything above it, and
  everything on the stack leads down to a node that is being followed;
* numbers: the number that a frame came back to belongs to a node on the stack
  that the frame leads to;
* edges: a successor of a node on the stack is still to be followed, or its
  component is complete, or it stands on the stack no lower than where the
  frames around the edge came back to.

Each way in which a search can go on has its lemma here.  When a frame is left
with its own number, no edge goes from its segment further down, so the
segment is a component.

**Results.** `Inv.enter`, `Inv.replace`, `Inv.pop`, `Inv.close`.
-/

namespace Schemata
namespace Component

variable {α : Type}

/-- One node leads to another along successors. -/
def Leads
    (next : α → List α) :
    α → α → Prop :=
  Relation.ReflTransGen fun a b => b ∈ next a

/-- A component: nodes that lead to each other, with all nodes that do so. -/
structure IsComponent
    (next : α → List α)
    (members : List α) : Prop where
  nonempty : members ≠ []
  mem_iff : ∀ a ∈ members, ∀ b, b ∈ members ↔ Leads next a b ∧ Leads next b a

/-- Along successors, a set of nodes that has the successors of its nodes is never left. -/
theorem Leads.mem_of_closed
    {next : α → List α}
    {P : α → Prop}
    (hclosed : ∀ a, P a → ∀ b ∈ next a, P b)
    {a b : α}
    (h : Leads next a b)
    (ha : P a) :
    P b := by
  induction h with
  | refl =>
      exact ha
  | tail _ hedge ih =>
      exact hclosed _ ih _ hedge

/-- The part of a list before an element and the part after it. -/
theorem exists_split_of_mem
    [BEq α]
    [LawfulBEq α]
    {a : α}
    {l : List α}
    (h : a ∈ l) :
    ∃ above below, l = above ++ a :: below ∧
      l.takeWhile (· != a) = above ∧ (l.dropWhile (· != a)).tail = below := by
  obtain ⟨above, below, rfl, hnot⟩ := List.eq_append_cons_of_mem h
  have hall : ∀ b ∈ above, (b != a) = true := by
    intro b hb
    rw [bne_iff_ne]
    rintro rfl
    exact hnot hb
  refine ⟨above, below, rfl, ?_, ?_⟩
  · simp [List.takeWhile_append_of_pos hall]
  · simp [List.dropWhile_append_of_pos hall]

namespace Search

/-- The nodes that are being followed, innermost first. -/
def path
    (st : Search α) :
    List α :=
  st.frames.map (·.node)

/-- The edge is still to be followed. -/
def Pending
    (st : Search α)
    (a b : α) : Prop :=
  ∃ f ∈ st.frames, f.node = a ∧ b ∈ f.targets

theorem node_mem_path
    {st : Search α}
    {f : Frame α}
    (h : f ∈ st.frames) :
    f.node ∈ st.path :=
  List.mem_map_of_mem h

theorem mem_outer_of_ne
    {st : Search α}
    {f g : Frame α}
    {outer : List (Frame α)}
    (hframes : st.frames = f :: outer)
    (hg : g ∈ st.frames)
    (hne : g ≠ f) :
    g ∈ outer := by
  rw [hframes] at hg
  exact (List.mem_cons.mp hg).resolve_left hne

variable [BEq α]

/-- The edge goes to the stack, and whatever is being followed below the edge, a frame between it
and the edge came back to the end of the edge or further. -/
structure Covered
    (st : Search α)
    (a b : α) : Prop where
  onStack : b ∈ st.stack
  low : ∀ c ∈ st.path, st.number c ≤ st.number a →
    ∃ g ∈ st.frames, st.number c ≤ st.number g.node ∧ st.number g.node ≤ st.number a ∧
      g.low ≤ st.number b

/-- What every search keeps true. -/
structure Inv
    (next : α → List α)
    (st : Search α) : Prop where
  nodup : st.entered.Nodup
  entered : (st.stack ++ st.found.flatten).Perm st.entered
  falling : st.stack.Pairwise fun a b => st.number b < st.number a
  onStack : ∀ a ∈ st.path, a ∈ st.stack
  nested : st.path.Pairwise fun a b => st.number b < st.number a
  low_le : ∀ f ∈ st.frames, f.low ≤ st.number f.node
  low_reached : ∀ f ∈ st.frames, ∃ a ∈ st.stack, st.number a = f.low ∧ Leads next f.node a
  targets : ∀ f ∈ st.frames, ∀ b ∈ f.targets, b ∈ next f.node
  down : ∀ c ∈ st.path, ∀ a ∈ st.stack, st.number c ≤ st.number a → Leads next c a
  up : ∀ a ∈ st.stack, ∃ c ∈ st.path, st.number c ≤ st.number a ∧ Leads next a c
  followed : ∀ a ∈ st.stack, ∀ b ∈ next a,
    st.Pending a b ∨ b ∈ st.found.flatten ∨ st.Covered a b
  closed : ∀ a ∈ st.found.flatten, ∀ b ∈ next a, b ∈ st.found.flatten
  found : ∀ members ∈ st.found, IsComponent next members

variable {next : α → List α}
variable {st : Search α}

theorem Inv.mem_entered_iff
    (h : Inv next st)
    (a : α) :
    a ∈ st.entered ↔ a ∈ st.stack ∨ a ∈ st.found.flatten := by
  rw [← h.entered.mem_iff, List.mem_append]

theorem Inv.mem_entered_of_stack
    (h : Inv next st)
    {a : α}
    (ha : a ∈ st.stack) :
    a ∈ st.entered :=
  (h.mem_entered_iff a).mpr (Or.inl ha)

/-- A node on the stack has no complete component. -/
theorem Inv.not_found_of_stack
    (h : Inv next st)
    {a : α}
    (ha : a ∈ st.stack) :
    a ∉ st.found.flatten := by
  have hnodup := h.entered.nodup_iff.mpr h.nodup
  exact (List.nodup_append'.mp hnodup).2.2 ha

theorem number_lt
    [LawfulBEq α]
    {a : α}
    (h : a ∈ st.entered) :
    st.number a < st.entered.length :=
  List.idxOf_lt_length_iff.mpr h

theorem Inv.start :
    Inv next (start : Search α) where
  nodup := List.nodup_nil
  entered := List.Perm.refl _
  falling := List.Pairwise.nil
  onStack := by simp [path, Search.start]
  nested := List.Pairwise.nil
  low_le := by simp [Search.start]
  low_reached := by simp [Search.start]
  targets := by simp [Search.start]
  down := by simp [path, Search.start]
  up := by simp [Search.start]
  followed := by simp [Search.start]
  closed := by simp [Search.start]
  found := by simp [Search.start]

section Enter

variable [LawfulBEq α]
variable {b : α}

theorem number_enter_of_mem
    {a : α}
    (h : a ∈ st.entered) :
    (st.enter next b).number a = st.number a :=
  List.idxOf_append_of_mem h

theorem number_enter_self
    (h : b ∉ st.entered) :
    (st.enter next b).number b = st.entered.length := by
  unfold number enter
  rw [List.idxOf_append_of_notMem h]
  simp

theorem Covered.enter
    (h : Inv next st)
    (hnew : b ∉ st.entered)
    {a c : α}
    (ha : a ∈ st.stack)
    (hcovered : st.Covered a c) :
    (st.enter next b).Covered a c := by
  have hnumber : ∀ d ∈ st.stack, (st.enter next b).number d = st.number d := fun d hd =>
    number_enter_of_mem (h.mem_entered_of_stack hd)
  refine ⟨List.mem_cons_of_mem b hcovered.onStack, ?_⟩
  intro d hd hle
  rw [hnumber a ha] at hle
  rcases List.mem_cons.mp hd with rfl | hd
  · -- The new node has a greater number than everything that was on the stack.
    have hlt := number_lt (h.mem_entered_of_stack ha)
    rw [number_enter_self hnew] at hle
    omega
  · rw [hnumber d (h.onStack d hd)] at hle ⊢
    obtain ⟨g, hg, hdg, hga, hlow⟩ := hcovered.low d hd hle
    refine ⟨g, List.mem_cons_of_mem _ hg, ?_⟩
    rw [hnumber a ha, hnumber c hcovered.onStack,
      hnumber g.node (h.onStack _ (node_mem_path hg))]
    exact ⟨hdg, hga, hlow⟩

/-- A new node may be entered when everything that is being followed leads to it. -/
theorem Inv.enter
    (h : Inv next st)
    (hnew : b ∉ st.entered)
    (hleads : ∀ c ∈ st.path, Leads next c b) :
    Inv next (st.enter next b) := by
  have hself : (st.enter next b).number b = st.entered.length := number_enter_self hnew
  have hnumber : ∀ a ∈ st.stack, (st.enter next b).number a = st.number a := fun a ha =>
    number_enter_of_mem (h.mem_entered_of_stack ha)
  have hpath : ∀ c ∈ st.path, (st.enter next b).number c = st.number c := fun c hc =>
    hnumber c (h.onStack c hc)
  have hlt : ∀ a ∈ st.stack, st.number a < st.entered.length := fun a ha =>
    number_lt (h.mem_entered_of_stack ha)
  have hcons : (st.enter next b).stack = b :: st.stack := rfl
  have hinner : (st.enter next b).path = b :: st.path := rfl
  refine
    { nodup := ?nodup
      entered := ?entered
      falling := ?falling
      onStack := ?onStack
      nested := ?nested
      low_le := ?low_le
      low_reached := ?low_reached
      targets := ?targets
      down := ?down
      up := ?up
      followed := ?followed
      closed := h.closed
      found := h.found }
  case nodup =>
    exact List.nodup_append'.mpr
      ⟨h.nodup, List.nodup_singleton b, by simpa using hnew⟩
  case entered =>
    have hperm : (b :: (st.stack ++ st.found.flatten)).Perm (st.entered ++ [b]) :=
      (h.entered.cons b).trans (List.perm_append_singleton b st.entered).symm
    exact hperm
  case falling =>
    rw [hcons, List.pairwise_cons]
    refine ⟨fun a ha => ?_, ?_⟩
    · rw [hnumber a ha, hself]
      exact hlt a ha
    · refine h.falling.imp_of_mem ?_
      intro a c ha hc hac
      rwa [hnumber a ha, hnumber c hc]
  case onStack =>
    intro c hc
    rcases List.mem_cons.mp hc with rfl | hc
    · exact List.mem_cons_self
    · exact List.mem_cons_of_mem b (h.onStack c hc)
  case nested =>
    rw [hinner, List.pairwise_cons]
    refine ⟨fun c hc => ?_, ?_⟩
    · rw [hpath c hc, hself]
      exact hlt c (h.onStack c hc)
    · refine h.nested.imp_of_mem ?_
      intro a c ha hc hac
      rwa [hpath a ha, hpath c hc]
  case low_le =>
    intro f hf
    rcases List.mem_cons.mp hf with rfl | hf
    · exact le_of_eq hself.symm
    · rw [hpath f.node (node_mem_path hf)]
      exact h.low_le f hf
  case low_reached =>
    intro f hf
    rcases List.mem_cons.mp hf with rfl | hf
    · exact ⟨b, List.mem_cons_self, hself, Relation.ReflTransGen.refl⟩
    · obtain ⟨a, ha, hlow, hreach⟩ := h.low_reached f hf
      exact ⟨a, List.mem_cons_of_mem b ha, (hnumber a ha).trans hlow, hreach⟩
  case targets =>
    intro f hf
    rcases List.mem_cons.mp hf with rfl | hf
    · exact fun c hc => hc
    · exact h.targets f hf
  case down =>
    intro c hc a ha hle
    rcases List.mem_cons.mp hc with rfl | hold
    · rcases List.mem_cons.mp ha with rfl | hstack
      · exact Relation.ReflTransGen.refl
      · rw [hself, hnumber a hstack] at hle
        have hless := hlt a hstack
        omega
    · rcases List.mem_cons.mp ha with rfl | hstack
      · exact hleads c hold
      · rw [hpath c hold, hnumber a hstack] at hle
        exact h.down c hold a hstack hle
  case up =>
    intro a ha
    rcases List.mem_cons.mp ha with rfl | ha
    · exact ⟨a, List.mem_cons_self, le_refl _, Relation.ReflTransGen.refl⟩
    · obtain ⟨c, hc, hle, hreach⟩ := h.up a ha
      refine ⟨c, List.mem_cons_of_mem b hc, ?_, hreach⟩
      rwa [hpath c hc, hnumber a ha]
  case followed =>
    intro a ha c hc
    rcases List.mem_cons.mp ha with rfl | ha
    · exact Or.inl ⟨_, List.mem_cons_self, rfl, hc⟩
    · rcases h.followed a ha c hc with ⟨f, hf, hnode, htarget⟩ | hfound | hcovered
      · exact Or.inl ⟨f, List.mem_cons_of_mem _ hf, hnode, htarget⟩
      · exact Or.inr (Or.inl hfound)
      · exact Or.inr (Or.inr (hcovered.enter h hnew ha))

end Enter

section Replace

/-- A frame is the same node with successors left out, and came back at least as far. -/
structure Revises
    (next : α → List α)
    (st : Search α)
    (f f' : Frame α) : Prop where
  node : f'.node = f.node
  low_le : f'.low ≤ f.low
  low_reached : ∃ a ∈ st.stack, st.number a = f'.low ∧ Leads next f.node a
  targets : ∀ b ∈ f'.targets, b ∈ f.targets

theorem Inv.revises_self
    (h : Inv next st)
    {f : Frame α}
    (hf : f ∈ st.frames) :
    st.Revises next f f :=
  ⟨rfl, le_refl _, h.low_reached f hf, fun _ hb => hb⟩

variable (before after : List (Frame α))
variable {f f' : Frame α}
variable (hframes : st.frames = before ++ f :: after)
variable (hrevises : st.Revises next f f')

include hframes hrevises

theorem Inv.exists_revised
    (h : Inv next st)
    {g : Frame α}
    (hg : g ∈ st.frames) :
    ∃ g' ∈ before ++ f' :: after, st.Revises next g g' := by
  have hself := h.revises_self hg
  rw [hframes, List.mem_append, List.mem_cons] at hg
  rcases hg with hg | rfl | hg
  · exact ⟨g, List.mem_append_left _ hg, hself⟩
  · exact ⟨f', List.mem_append_right _ List.mem_cons_self, hrevises⟩
  · exact ⟨g, List.mem_append_right _ (List.mem_cons_of_mem f' hg), hself⟩

theorem Inv.exists_original
    (h : Inv next st)
    {g' : Frame α}
    (hg' : g' ∈ before ++ f' :: after) :
    ∃ g ∈ st.frames, st.Revises next g g' := by
  have hsame : g' ∈ before ∨ g' ∈ after → g' ∈ st.frames := by
    rw [hframes, List.mem_append, List.mem_cons]
    rintro (hg | hg)
    · exact Or.inl hg
    · exact Or.inr (Or.inr hg)
  rcases List.mem_append.mp hg' with hg | hg
  · exact ⟨g', hsame (Or.inl hg), h.revises_self (hsame (Or.inl hg))⟩
  · rcases List.mem_cons.mp hg with rfl | hg
    · exact ⟨f, by simp [hframes], hrevises⟩
    · exact ⟨g', hsame (Or.inr hg), h.revises_self (hsame (Or.inr hg))⟩

theorem path_replace :
    { st with frames := before ++ f' :: after }.path = st.path := by
  simp [path, hframes, hrevises.node]

theorem Covered.replace
    (h : Inv next st)
    {a b : α}
    (hcovered : st.Covered a b) :
    { st with frames := before ++ f' :: after }.Covered a b := by
  refine ⟨hcovered.onStack, fun c hc hle => ?_⟩
  rw [path_replace before after hframes hrevises] at hc
  obtain ⟨g, hg, hcg, hga, hlow⟩ := hcovered.low c hc hle
  obtain ⟨g', hg', hsame⟩ := h.exists_revised before after hframes hrevises hg
  refine ⟨g', hg', ?_⟩
  rw [hsame.node]
  exact ⟨hcg, hga, hsame.low_le.trans hlow⟩

/-- A frame may be revised when every successor that it leaves out is accounted for. -/
theorem Inv.replace
    (h : Inv next st)
    (hdropped : ∀ b ∈ f.targets, b ∈ f'.targets ∨ b ∈ st.found.flatten ∨
      { st with frames := before ++ f' :: after }.Covered f.node b) :
    Inv next { st with frames := before ++ f' :: after } := by
  have hpath := path_replace before after hframes hrevises
  refine
    { nodup := h.nodup
      entered := h.entered
      falling := h.falling
      onStack := ?onStack
      nested := ?nested
      low_le := ?low_le
      low_reached := ?low_reached
      targets := ?targets
      down := ?down
      up := ?up
      followed := ?followed
      closed := h.closed
      found := h.found }
  case onStack =>
    rw [hpath]
    exact h.onStack
  case nested =>
    rw [hpath]
    exact h.nested
  case low_le =>
    intro g' hg'
    obtain ⟨g, hg, hsame⟩ := h.exists_original before after hframes hrevises hg'
    rw [hsame.node]
    exact hsame.low_le.trans (h.low_le g hg)
  case low_reached =>
    intro g' hg'
    obtain ⟨g, -, hsame⟩ := h.exists_original before after hframes hrevises hg'
    rw [hsame.node]
    exact hsame.low_reached
  case targets =>
    intro g' hg' b hb
    obtain ⟨g, hg, hsame⟩ := h.exists_original before after hframes hrevises hg'
    rw [hsame.node]
    exact h.targets g hg b (hsame.targets b hb)
  case down =>
    rw [hpath]
    exact h.down
  case up =>
    rw [hpath]
    exact h.up
  case followed =>
    intro a ha b hb
    rcases h.followed a ha b hb with ⟨g, hg, rfl, htarget⟩ | hfound | hcovered
    · rw [hframes, List.mem_append, List.mem_cons] at hg
      rcases hg with hg | rfl | hg
      · exact Or.inl ⟨g, List.mem_append_left _ hg, rfl, htarget⟩
      · rcases hdropped b htarget with hleft | hdone
        · exact Or.inl
            ⟨f', List.mem_append_right _ List.mem_cons_self, hrevises.node, hleft⟩
        · exact Or.inr hdone
      · exact Or.inl
          ⟨g, List.mem_append_right _ (List.mem_cons_of_mem f' hg), rfl, htarget⟩
    · exact Or.inr (Or.inl hfound)
    · exact Or.inr (Or.inr (hcovered.replace before after hframes hrevises h))

end Replace

section Leave

variable {f : Frame α}
variable {outer : List (Frame α)}

/-- The innermost node has the greatest number of those that are being followed. -/
theorem Inv.number_lt_of_outer
    (h : Inv next st)
    (hframes : st.frames = f :: outer)
    {g : Frame α}
    (hg : g ∈ outer) :
    st.number g.node < st.number f.node := by
  have hnested := h.nested
  rw [path, hframes, List.map_cons, List.pairwise_cons] at hnested
  exact hnested.1 g.node (List.mem_map_of_mem hg)

theorem Inv.number_le_of_path
    (h : Inv next st)
    (hframes : st.frames = f :: outer)
    {c : α}
    (hc : c ∈ st.path) :
    st.number c ≤ st.number f.node := by
  rw [path, hframes, List.map_cons, List.mem_cons, List.mem_map] at hc
  rcases hc with rfl | ⟨g, hg, rfl⟩
  · exact le_refl _
  · exact le_of_lt (h.number_lt_of_outer hframes hg)

/-- What is being followed around the innermost frame are the nodes with smaller numbers. -/
theorem Inv.mem_outer_of_lt
    (hframes : st.frames = f :: outer)
    {c : α}
    (hc : c ∈ st.path)
    (hlt : st.number c < st.number f.node) :
    c ∈ outer.map (·.node) := by
  rw [path, hframes, List.map_cons, List.mem_cons] at hc
  rcases hc with rfl | hc
  · omega
  · exact hc

/-- A frame that came back further than its own node can be left, if the frame around it came back
as far. -/
theorem Inv.pop
    (h : Inv next st)
    {p : Frame α}
    {others : List (Frame α)}
    (hframes : st.frames = f :: p :: others)
    (htargets : f.targets = [])
    (hlow : f.low < st.number f.node)
    (hparent : p.low ≤ f.low) :
    Inv next { st with frames := p :: others } := by
  have hsub : ∀ g ∈ p :: others, g ∈ st.frames := by
    rw [hframes]
    exact fun g hg => List.mem_cons_of_mem f hg
  have hpath : ∀ c ∈ (p :: others).map (·.node), c ∈ st.path := by
    intro c hc
    rw [path, hframes]
    exact List.mem_cons_of_mem _ hc
  have hcycle : ∃ c ∈ (p :: others).map (·.node),
      st.number c < st.number f.node ∧ Leads next f.node c := by
    obtain ⟨a, ha, hnumber, hreach⟩ := h.low_reached f (hframes ▸ List.mem_cons_self)
    obtain ⟨c, hc, hle, hreach'⟩ := h.up a ha
    have hlt : st.number c < st.number f.node := by omega
    exact ⟨c, Inv.mem_outer_of_lt hframes hc hlt, hlt, hreach.trans hreach'⟩
  refine
    { nodup := h.nodup, entered := h.entered, falling := h.falling
      onStack := fun c hc => h.onStack c (hpath c hc)
      nested := ?nested
      low_le := fun g hg => h.low_le g (hsub g hg)
      low_reached := fun g hg => h.low_reached g (hsub g hg)
      targets := fun g hg => h.targets g (hsub g hg)
      down := fun c hc => h.down c (hpath c hc)
      up := ?up, followed := ?followed, closed := h.closed, found := h.found }
  case nested =>
    have hnested := h.nested
    rw [path, hframes, List.map_cons, List.pairwise_cons] at hnested
    exact hnested.2
  case up =>
    intro a ha
    obtain ⟨c, hc, hle, hreach⟩ := h.up a ha
    by_cases hlt : st.number c < st.number f.node
    · exact ⟨c, Inv.mem_outer_of_lt hframes hc hlt, hle, hreach⟩
    · -- The node led down to the frame that is left; from there a path goes further down.
      have hle' := h.number_le_of_path hframes hc
      obtain ⟨d, hd, hdlt, hdown⟩ := hcycle
      have hstack := h.onStack f.node (node_mem_path (hframes ▸ List.mem_cons_self))
      have hself := h.down c hc f.node hstack hle'
      exact ⟨d, hd, by show st.number d ≤ st.number a; omega, (hreach.trans hself).trans hdown⟩
  case followed =>
    intro a ha b hb
    rcases h.followed a ha b hb with ⟨g, hg, hnode, htarget⟩ | hfound | hcovered
    · have hne : g ≠ f := by
        rintro rfl
        rw [htargets] at htarget
        cases htarget
      exact Or.inl ⟨g, mem_outer_of_ne hframes hg hne, hnode, htarget⟩
    · exact Or.inr (Or.inl hfound)
    · refine Or.inr (Or.inr ⟨hcovered.onStack, fun c hc hle => ?_⟩)
      obtain ⟨g, hg, hcg, hga, hglow⟩ := hcovered.low c (hpath c hc) hle
      by_cases hgf : g = f
      · -- The frame around takes the place of the one that is left.
        subst hgf
        have hp := h.number_lt_of_outer hframes List.mem_cons_self
        refine ⟨p, List.mem_cons_self, ?_, ?_, hparent.trans hglow⟩
        · obtain ⟨g', hg', rfl⟩ := List.mem_map.mp hc
          rcases List.mem_cons.mp hg' with rfl | hg'
          · exact le_refl _
          · have hnested := h.nested
            rw [path, hframes, List.map_cons, List.pairwise_cons, List.map_cons,
              List.pairwise_cons] at hnested
            exact le_of_lt (hnested.2.1 g'.node (List.mem_map_of_mem hg'))
        · show st.number p.node ≤ st.number a
          omega
      · exact ⟨g, mem_outer_of_ne hframes hg hgf, hcg, hga, hglow⟩

end Leave

section Close

variable {f : Frame α}
variable {outer : List (Frame α)}

/-- No edge goes further down from the segment of a frame that came back only to its own node. -/
theorem Inv.exits
    (h : Inv next st)
    (hframes : st.frames = f :: outer)
    (htargets : f.targets = [])
    (hlow : f.low = st.number f.node)
    {a : α}
    (ha : a ∈ st.stack)
    (hle : st.number f.node ≤ st.number a)
    {b : α}
    (hb : b ∈ next a) :
    (b ∈ st.stack ∧ st.number f.node ≤ st.number b) ∨ b ∈ st.found.flatten := by
  have hf : f ∈ st.frames := hframes ▸ List.mem_cons_self
  rcases h.followed a ha b hb with ⟨g, hg, rfl, htarget⟩ | hfound | hcovered
  · exfalso
    by_cases hgf : g = f
    · rw [hgf, htargets] at htarget
      cases htarget
    · have hlt := h.number_lt_of_outer hframes (mem_outer_of_ne hframes hg hgf)
      omega
  · exact Or.inr hfound
  · obtain ⟨g, hg, hfg, -, hglow⟩ := hcovered.low f.node (node_mem_path hf) hle
    have hgf : g = f := by
      by_contra hne
      have hlt := h.number_lt_of_outer hframes (mem_outer_of_ne hframes hg hne)
      omega
    subst hgf
    exact Or.inl ⟨hcovered.onStack, by omega⟩

/-- The segment of a frame that came back only to its own node is a component. -/
theorem Inv.isComponent
    (h : Inv next st)
    (hframes : st.frames = f :: outer)
    (htargets : f.targets = [])
    (hlow : f.low = st.number f.node)
    {members : List α}
    (hmembers : ∀ a, a ∈ members ↔ a ∈ st.stack ∧ st.number f.node ≤ st.number a) :
    IsComponent next members := by
  have hf : f ∈ st.frames := hframes ▸ List.mem_cons_self
  have hstack := h.onStack f.node (node_mem_path hf)
  have hstays : ∀ a, a ∈ members ∨ a ∈ st.found.flatten →
      ∀ b ∈ next a, b ∈ members ∨ b ∈ st.found.flatten := by
    rintro a (ha | ha) b hb
    · obtain ⟨ha, hle⟩ := (hmembers a).mp ha
      rw [hmembers b]
      exact h.exits hframes htargets hlow ha hle hb
    · exact Or.inr (h.closed a ha b hb)
  have hdown : ∀ a ∈ members, Leads next f.node a := by
    intro a ha
    obtain ⟨ha, hle⟩ := (hmembers a).mp ha
    exact h.down f.node (node_mem_path hf) a ha hle
  have hup : ∀ a ∈ members, Leads next a f.node := by
    intro a ha
    obtain ⟨c, hc, -, hreach⟩ := h.up a ((hmembers a).mp ha).1
    exact hreach.trans (h.down c hc f.node hstack (h.number_le_of_path hframes hc))
  refine ⟨List.ne_nil_of_mem ((hmembers f.node).mpr ⟨hstack, le_refl _⟩), ?_⟩
  intro a ha b
  constructor
  · intro hb
    exact ⟨(hup a ha).trans (hdown b hb), (hup b hb).trans (hdown a ha)⟩
  · rintro ⟨hab, hba⟩
    rcases Leads.mem_of_closed hstays hab (Or.inl ha) with hb | hb
    · exact hb
    · have hfound := Leads.mem_of_closed h.closed hba hb
      exact absurd hfound (h.not_found_of_stack ((hmembers a).mp ha).1)

/-- The stack around a node: what was entered from the node on, and what was entered before. -/
structure Cut
    (st : Search α)
    (a : α)
    (members below : List α) : Prop where
  perm : (members ++ below).Perm st.stack
  mem_members : ∀ b, b ∈ members ↔ b ∈ st.stack ∧ st.number a ≤ st.number b
  mem_below : ∀ b, b ∈ below ↔ b ∈ st.stack ∧ st.number b < st.number a
  falling : below.Pairwise fun b c => st.number c < st.number b

theorem Inv.cut
    [LawfulBEq α]
    (h : Inv next st)
    {a : α}
    (ha : a ∈ st.stack) :
    st.Cut a (st.stack.takeWhile (· != a) ++ [a]) (st.stack.dropWhile (· != a)).tail := by
  obtain ⟨above, below, hsplit, habove, hbelow⟩ := exists_split_of_mem ha
  rw [habove, hbelow]
  have hfalling := h.falling
  rw [hsplit, List.pairwise_append, List.pairwise_cons] at hfalling
  obtain ⟨-, ⟨hlt, hrest⟩, hgt⟩ := hfalling
  have hgt' : ∀ b ∈ above, st.number a < st.number b := fun b hb =>
    hgt b hb a List.mem_cons_self
  have hmem : ∀ b, b ∈ st.stack ↔ b ∈ above ∨ b = a ∨ b ∈ below := by
    intro b
    rw [hsplit, List.mem_append, List.mem_cons]
  refine ⟨by rw [hsplit]; simp, fun b => ?_, fun b => ?_, hrest⟩
  · rw [hmem, List.mem_append, List.mem_singleton]
    constructor
    · rintro (hb | rfl)
      · exact ⟨Or.inl hb, le_of_lt (hgt' b hb)⟩
      · exact ⟨Or.inr (Or.inl rfl), le_refl _⟩
    · rintro ⟨hb | rfl | hb, hle⟩
      · exact Or.inl hb
      · exact Or.inr rfl
      · have hless := hlt b hb
        omega
  · rw [hmem]
    constructor
    · intro hb
      exact ⟨Or.inr (Or.inr hb), hlt b hb⟩
    · rintro ⟨hb | rfl | hb, hless⟩
      · have hmore := hgt' b hb
        omega
      · omega
      · exact hb

/-- An edge from below a cut is accounted for when the frame at the cut is gone and what is above
has become a component. -/
theorem Inv.followed_below
    (h : Inv next st)
    (hframes : st.frames = f :: outer)
    (htargets : f.targets = [])
    {members below : List α}
    (hcut : st.Cut f.node members below)
    {found : List (List α)}
    (hfound : ∀ b, b ∈ found.flatten ↔ b ∈ st.found.flatten ∨ b ∈ members)
    {a b : α}
    (ha : a ∈ below)
    (hb : b ∈ next a) :
    { st with frames := outer, stack := below, found }.Pending a b ∨ b ∈ found.flatten ∨
      { st with frames := outer, stack := below, found }.Covered a b := by
  obtain ⟨hstack, hlt⟩ := (hcut.mem_below a).mp ha
  rcases h.followed a hstack b hb with ⟨g, hg, hnode, htarget⟩ | hcomplete | hcovered
  · have hne : g ≠ f := by
      rintro rfl
      rw [htargets] at htarget
      cases htarget
    exact Or.inl ⟨g, mem_outer_of_ne hframes hg hne, hnode, htarget⟩
  · exact Or.inr (Or.inl ((hfound b).mpr (Or.inl hcomplete)))
  · by_cases hbelow : st.number b < st.number f.node
    · refine Or.inr (Or.inr ⟨(hcut.mem_below b).mpr ⟨hcovered.onStack, hbelow⟩, ?_⟩)
      intro c hc hle
      have hpath : c ∈ st.path := by
        rw [path, hframes]
        exact List.mem_cons_of_mem _ hc
      obtain ⟨g, hg, hcg, hga, hglow⟩ := hcovered.low c hpath hle
      have hne : g ≠ f := by
        rintro rfl
        omega
      exact ⟨g, mem_outer_of_ne hframes hg hne, hcg, hga, hglow⟩
    · have hmember := (hcut.mem_members b).mpr ⟨hcovered.onStack, by omega⟩
      exact Or.inr (Or.inl ((hfound b).mpr (Or.inr hmember)))

/-- A frame that came back only to its own node completes its segment. -/
theorem Inv.close
    [LawfulBEq α]
    (h : Inv next st)
    (hframes : st.frames = f :: outer)
    (htargets : f.targets = [])
    (hlow : f.low = st.number f.node) :
    Inv next ({ st with frames := outer }.close f.node) := by
  have hcut := h.cut (h.onStack f.node (node_mem_path (hframes ▸ List.mem_cons_self)))
  unfold Search.close
  generalize st.stack.takeWhile (· != f.node) ++ [f.node] = members at hcut ⊢
  generalize (st.stack.dropWhile (· != f.node)).tail = below at hcut ⊢
  have hfound : ∀ b, b ∈ (st.found ++ [members]).flatten ↔
      b ∈ st.found.flatten ∨ b ∈ members := by simp
  have hsub : ∀ g ∈ outer, g ∈ st.frames := by
    rw [hframes]
    exact fun g hg => List.mem_cons_of_mem f hg
  have hpath : ∀ c ∈ outer.map (·.node), c ∈ st.path ∧ st.number c < st.number f.node := by
    intro c hc
    obtain ⟨g, hg, rfl⟩ := List.mem_map.mp hc
    exact ⟨node_mem_path (hsub g hg), h.number_lt_of_outer hframes hg⟩
  have hnested := h.nested
  rw [path, hframes, List.map_cons, List.pairwise_cons] at hnested
  refine
    { nodup := h.nodup
      entered := ?entered
      falling := hcut.falling
      onStack := ?onStack
      nested := hnested.2
      low_le := fun g hg => h.low_le g (hsub g hg)
      low_reached := ?low_reached
      targets := fun g hg => h.targets g (hsub g hg)
      down := ?down
      up := ?up
      followed := fun a ha b hb => h.followed_below hframes htargets hcut hfound ha hb
      closed := ?closed
      found := ?found }
  case entered =>
    refine List.Perm.trans ?_ h.entered
    have hcount := List.perm_iff_count.mp hcut.perm
    rw [List.perm_iff_count]
    intro a
    have ha := hcount a
    simp only [List.count_append, List.flatten_append, List.flatten_singleton] at ha ⊢
    omega
  case onStack =>
    intro c hc
    obtain ⟨hc, hlt⟩ := hpath c hc
    exact (hcut.mem_below c).mpr ⟨h.onStack c hc, hlt⟩
  case low_reached =>
    intro g hg
    obtain ⟨a, ha, hnumber, hreach⟩ := h.low_reached g (hsub g hg)
    have hle := h.low_le g (hsub g hg)
    have hlt := h.number_lt_of_outer hframes hg
    exact ⟨a, (hcut.mem_below a).mpr ⟨ha, by omega⟩, hnumber, hreach⟩
  case down =>
    intro c hc a ha
    exact h.down c (hpath c hc).1 a ((hcut.mem_below a).mp ha).1
  case up =>
    intro a ha
    obtain ⟨ha, hlt⟩ := (hcut.mem_below a).mp ha
    obtain ⟨c, hc, hle, hreach⟩ := h.up a ha
    exact ⟨c, Inv.mem_outer_of_lt hframes hc (lt_of_le_of_lt hle hlt), hle, hreach⟩
  case closed =>
    intro a ha b hb
    rw [hfound] at ha ⊢
    rcases ha with ha | ha
    · exact Or.inl (h.closed a ha b hb)
    · obtain ⟨ha, hle⟩ := (hcut.mem_members a).mp ha
      rw [hcut.mem_members]
      exact (h.exits hframes htargets hlow ha hle hb).symm
  case found =>
    intro found hmem
    rcases List.mem_append.mp hmem with hmem | hmem
    · exact h.found found hmem
    · obtain rfl := List.mem_singleton.mp hmem
      exact h.isComponent hframes htargets hlow hcut.mem_members

end Close

end Search

end Component
end Schemata
