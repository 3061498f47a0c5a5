import Schemata.Proofs.Component.Invariant

/-!
# The search finds the components

`Goes` lists what one step of a search can do.  Every step keeps the invariant
and makes the search lighter: a node weighs one more than it has successors, as
long as it is new, and a frame weighs one more than it has successors left.  So
the steps that `bound` allows are enough to leave every frame, and when no
frame is left, the stack is empty and every node that was entered has its
component.

**Results.**
* `Goes.inv`, `Goes.weight_lt`: what a step keeps, and what it spends.
* `perm_flatten_all`: the components that are found divide the nodes.
* `isComponent_of_mem_all`: each of them is a component.
-/

namespace Schemata
namespace Component

variable {α : Type}

namespace Search

/-- Where every frame came back to its own node or further, a greater number changes nothing. -/
theorem lower_eq_self
    {number : Nat}
    {outer : List (Frame α)}
    (h : ∀ g ∈ outer, g.low ≤ number) :
    lower number outer = outer := by
  cases outer with
  | nil =>
      rfl
  | cons p others =>
      rw [lower, min_eq_left (h p List.mem_cons_self)]

/-- What frames weigh. -/
def frameWeight
    (frames : List (Frame α)) :
    Nat :=
  (frames.map fun f => f.targets.length + 1).sum

theorem frameWeight_cons
    (f : Frame α)
    (frames : List (Frame α)) :
    frameWeight (f :: frames) = f.targets.length + 1 + frameWeight frames := by
  simp [frameWeight]

theorem frameWeight_lower
    (number : Nat)
    (frames : List (Frame α)) :
    frameWeight (lower number frames) = frameWeight frames := by
  cases frames with
  | nil =>
      rfl
  | cons f outer =>
      simp [lower, frameWeight]

theorem sum_eq_bound
    (next : α → List α)
    (nodes : List α) :
    (nodes.map fun a => (next a).length + 1).sum = bound next nodes := by
  induction nodes with
  | nil =>
      rfl
  | cons a nodes ih =>
      rw [bound] at ih ⊢
      rw [List.map_cons, List.sum_cons, ih, List.flatMap_cons, List.length_cons,
        List.length_append]
      omega

variable [BEq α]

/-- What one step of a search can do. -/
inductive Goes
    (next : α → List α)
    (st : Search α) :
    Search α → Prop
  | closes
      {f : Frame α}
      {outer : List (Frame α)}
      (hframes : st.frames = f :: outer)
      (htargets : f.targets = [])
      (hlow : f.low = st.number f.node) :
      Goes next st ({ st with frames := lower f.low outer }.close f.node)
  | leaves
      {f : Frame α}
      {outer : List (Frame α)}
      (hframes : st.frames = f :: outer)
      (htargets : f.targets = [])
      (hlow : f.low ≠ st.number f.node) :
      Goes next st { st with frames := lower f.low outer }
  | enters
      {f : Frame α}
      {outer : List (Frame α)}
      {b : α}
      {targets : List α}
      (hframes : st.frames = f :: outer)
      (htargets : f.targets = b :: targets)
      (hnew : b ∉ st.entered) :
      Goes next st ({ st with frames := { f with targets } :: outer }.enter next b)
  | returns
      {f : Frame α}
      {outer : List (Frame α)}
      {b : α}
      {targets : List α}
      (hframes : st.frames = f :: outer)
      (htargets : f.targets = b :: targets)
      (hstack : b ∈ st.stack) :
      Goes next st { st with frames := lower (st.number b) ({ f with targets } :: outer) }
  | skips
      {f : Frame α}
      {outer : List (Frame α)}
      {b : α}
      {targets : List α}
      (hframes : st.frames = f :: outer)
      (htargets : f.targets = b :: targets)
      (hentered : b ∈ st.entered)
      (hstack : b ∉ st.stack) :
      Goes next st { st with frames := { f with targets } :: outer }

variable {next : α → List α}
variable {st st' : Search α}

theorem goes_step
    [LawfulBEq α]
    (hframes : st.frames ≠ []) :
    Goes next st (st.step next) := by
  obtain ⟨f, outer, hcons⟩ := List.exists_cons_of_ne_nil hframes
  cases htargets : f.targets with
  | nil =>
      by_cases hlow : f.low = st.number f.node
      · have hstep : st.step next = { st with frames := lower f.low outer }.close f.node := by
          simp only [step, hcons, htargets]
          rw [if_pos (beq_iff_eq.mpr hlow)]
        rw [hstep]
        exact Goes.closes hcons htargets hlow
      · have hstep : st.step next = { st with frames := lower f.low outer } := by
          simp only [step, hcons, htargets]
          rw [if_neg (by rwa [beq_iff_eq])]
        rw [hstep]
        exact Goes.leaves hcons htargets hlow
  | cons b targets =>
      by_cases hentered : b ∈ st.entered
      · by_cases hstack : b ∈ st.stack
        · have hstep : st.step next =
              { st with frames := lower (st.number b) ({ f with targets } :: outer) } := by
            simp only [step, hcons, htargets]
            rw [if_pos (List.contains_iff_mem.mpr hentered),
              if_pos (List.contains_iff_mem.mpr hstack)]
          rw [hstep]
          exact Goes.returns hcons htargets hstack
        · have hstep : st.step next = { st with frames := { f with targets } :: outer } := by
            simp only [step, hcons, htargets]
            rw [if_pos (List.contains_iff_mem.mpr hentered),
              if_neg (by rwa [List.contains_iff_mem])]
          rw [hstep]
          exact Goes.skips hcons htargets hentered hstack
      · have hstep : st.step next =
            { st with frames := { f with targets } :: outer }.enter next b := by
          simp only [step, hcons, htargets]
          rw [if_neg (by rwa [List.contains_iff_mem])]
        rw [hstep]
        exact Goes.enters hcons htargets hentered

section Steps

variable {f : Frame α}
variable {outer : List (Frame α)}

/-- An edge from a node that is being followed to the stack is covered by the frame of the node,
when the frame came back to the end of the edge or further. -/
theorem covered_of_low
    {a b : α}
    (hf : f ∈ st.frames)
    (hnode : f.node = a)
    (hb : b ∈ st.stack)
    (hlow : f.low ≤ st.number b) :
    st.Covered a b := by
  subst hnode
  exact ⟨hb, fun _ _ hle => ⟨f, hf, hle, le_refl _, hlow⟩⟩

/-- The number that a frame comes back to may be lowered to that of a node which it leads to. -/
theorem Inv.revises_lower
    (h : Inv next st)
    (hf : f ∈ st.frames)
    {a : α}
    (ha : a ∈ st.stack)
    (hreach : Leads next f.node a)
    {targets : List α}
    (htargets : ∀ b ∈ targets, b ∈ f.targets) :
    st.Revises next f ⟨f.node, min f.low (st.number a), targets⟩ := by
  refine ⟨rfl, min_le_left _ _, ?_, htargets⟩
  rcases le_total f.low (st.number a) with hle | hle
  · rw [min_eq_left hle]
    exact h.low_reached f hf
  · rw [min_eq_right hle]
    exact ⟨a, ha, rfl, hreach⟩

theorem Inv.returns
    (h : Inv next st)
    (hframes : st.frames = f :: outer)
    {b : α}
    {targets : List α}
    (htargets : f.targets = b :: targets)
    (hstack : b ∈ st.stack) :
    Inv next { st with frames := lower (st.number b) ({ f with targets } :: outer) } := by
  have hf : f ∈ st.frames := hframes ▸ List.mem_cons_self
  have hedge : b ∈ next f.node := h.targets f hf b (htargets ▸ List.mem_cons_self)
  have hrevises : st.Revises next f ⟨f.node, min f.low (st.number b), targets⟩ :=
    h.revises_lower hf hstack (Relation.ReflTransGen.single hedge)
      (fun c hc => htargets ▸ List.mem_cons_of_mem b hc)
  have hcovered : { st with frames := lower (st.number b) ({ f with targets } :: outer) }.Covered
      f.node b :=
    covered_of_low List.mem_cons_self rfl hstack (min_le_right _ _)
  refine Inv.replace [] outer hframes hrevises h ?_
  intro c hc
  rw [htargets] at hc
  rcases List.mem_cons.mp hc with rfl | hc
  · exact Or.inr (Or.inr hcovered)
  · exact Or.inl hc

theorem Inv.skips
    (h : Inv next st)
    (hframes : st.frames = f :: outer)
    {b : α}
    {targets : List α}
    (htargets : f.targets = b :: targets)
    (hfound : b ∈ st.found.flatten) :
    Inv next { st with frames := { f with targets } :: outer } := by
  have hrevises : st.Revises next f { f with targets } :=
    ⟨rfl, le_refl _, h.low_reached f (hframes ▸ List.mem_cons_self),
      fun c hc => htargets ▸ List.mem_cons_of_mem b hc⟩
  refine Inv.replace [] outer hframes hrevises h ?_
  intro c hc
  rw [htargets] at hc
  rcases List.mem_cons.mp hc with rfl | hc
  · exact Or.inr (Or.inl hfound)
  · exact Or.inl hc

/-- Following an edge to a new node is entering the node, and then leaving the edge out. -/
theorem Inv.enters
    [LawfulBEq α]
    (h : Inv next st)
    (hframes : st.frames = f :: outer)
    {b : α}
    {targets : List α}
    (htargets : f.targets = b :: targets)
    (hnew : b ∉ st.entered) :
    Inv next ({ st with frames := { f with targets } :: outer }.enter next b) := by
  have hf : f ∈ st.frames := hframes ▸ List.mem_cons_self
  have hstack := h.onStack f.node (node_mem_path hf)
  have hedge : b ∈ next f.node := h.targets f hf b (htargets ▸ List.mem_cons_self)
  have hentered : Inv next (st.enter next b) := by
    refine h.enter hnew fun c hc => ?_
    exact (h.down c hc f.node hstack (h.number_le_of_path hframes hc)).tail hedge
  have hinner : (st.enter next b).frames =
      [⟨b, st.entered.length, next b⟩] ++ f :: outer := by
    simp [Search.enter, hframes]
  have hf' : f ∈ (st.enter next b).frames := List.mem_cons_of_mem _ hf
  have hrevises : (st.enter next b).Revises next f { f with targets } :=
    ⟨rfl, le_refl _, hentered.low_reached f hf',
      fun c hc => htargets ▸ List.mem_cons_of_mem b hc⟩
  have hlow : f.low ≤ (st.enter next b).number b := by
    have hle := h.low_le f hf
    have hlt := number_lt (h.mem_entered_of_stack hstack)
    rw [number_enter_self hnew]
    omega
  have hcovered : ({ st with frames := { f with targets } :: outer }.enter next b).Covered
      f.node b :=
    covered_of_low (List.mem_cons_of_mem _ List.mem_cons_self) rfl List.mem_cons_self hlow
  refine Inv.replace [_] outer hinner hrevises hentered ?_
  intro c hc
  rw [htargets] at hc
  rcases List.mem_cons.mp hc with rfl | hc
  · exact Or.inr (Or.inr hcovered)
  · exact Or.inl hc

/-- A frame that came back further than its own node has a frame around it. -/
theorem Inv.exists_outer
    (h : Inv next st)
    (hframes : st.frames = f :: outer)
    (hlow : f.low < st.number f.node) :
    ∃ p others, outer = p :: others := by
  have hf : f ∈ st.frames := hframes ▸ List.mem_cons_self
  obtain ⟨a, ha, hnumber, -⟩ := h.low_reached f hf
  obtain ⟨c, hc, hle, -⟩ := h.up a ha
  have hmem := Inv.mem_outer_of_lt hframes hc (by omega)
  cases outer with
  | nil =>
      cases hmem
  | cons p others =>
      exact ⟨p, others, rfl⟩

/-- Leaving a frame is handing its number to the frame around it, and then taking it away. -/
theorem Inv.leaves
    (h : Inv next st)
    (hframes : st.frames = f :: outer)
    (htargets : f.targets = [])
    (hlow : f.low ≠ st.number f.node) :
    Inv next { st with frames := lower f.low outer } := by
  have hf : f ∈ st.frames := hframes ▸ List.mem_cons_self
  have hlt : f.low < st.number f.node := lt_of_le_of_ne (h.low_le f hf) hlow
  obtain ⟨p, others, rfl⟩ := h.exists_outer hframes hlt
  have hp : p ∈ st.frames := by simp [hframes]
  obtain ⟨a, ha, hnumber, hreach⟩ := h.low_reached f hf
  have hpf := h.down p.node (node_mem_path hp) f.node (h.onStack f.node (node_mem_path hf))
    (le_of_lt (h.number_lt_of_outer hframes List.mem_cons_self))
  have hrevises : st.Revises next p ⟨p.node, min p.low f.low, p.targets⟩ := by
    rw [← hnumber]
    exact h.revises_lower hp ha (hpf.trans hreach) (fun b hb => hb)
  have hhanded := Inv.replace [f] others hframes hrevises h (fun b hb => Or.inl hb)
  exact hhanded.pop rfl htargets hlt (min_le_right _ _)

theorem Inv.closes
    [LawfulBEq α]
    (h : Inv next st)
    (hframes : st.frames = f :: outer)
    (htargets : f.targets = [])
    (hlow : f.low = st.number f.node) :
    Inv next ({ st with frames := lower f.low outer }.close f.node) := by
  have hself : lower f.low outer = outer := by
    refine lower_eq_self fun g hg => ?_
    have hle := h.low_le g (hframes ▸ List.mem_cons_of_mem f hg)
    have hlt := h.number_lt_of_outer hframes hg
    omega
  rw [hself]
  exact h.close hframes htargets hlow

end Steps

/-- A step keeps the invariant. -/
theorem Goes.inv
    [LawfulBEq α]
    (hgoes : Goes next st st')
    (h : Inv next st) :
    Inv next st' := by
  cases hgoes with
  | closes hframes htargets hlow =>
      exact h.closes hframes htargets hlow
  | leaves hframes htargets hlow =>
      exact h.leaves hframes htargets hlow
  | enters hframes htargets hnew =>
      exact h.enters hframes htargets hnew
  | returns hframes htargets hstack =>
      exact h.returns hframes htargets hstack
  | skips hframes htargets hentered hstack =>
      have hfound := ((h.mem_entered_iff _).mp hentered).resolve_left hstack
      exact h.skips hframes htargets hfound

/-- A step enters nothing, or the next successor of the innermost node. -/
theorem Goes.entered_cases
    (hgoes : Goes next st st') :
    st'.entered = st.entered ∨
      ∃ f ∈ st.frames, ∃ b ∈ f.targets, st'.entered = st.entered ++ [b] := by
  cases hgoes with
  | closes hframes htargets hlow =>
      exact Or.inl rfl
  | leaves hframes htargets hlow =>
      exact Or.inl rfl
  | @enters f outer b targets hframes htargets hnew =>
      refine Or.inr ⟨f, ?_, b, ?_, rfl⟩
      · rw [hframes]
        exact List.mem_cons_self
      · rw [htargets]
        exact List.mem_cons_self
  | returns hframes htargets hstack =>
      exact Or.inl rfl
  | skips hframes htargets hentered hstack =>
      exact Or.inl rfl

section Weight

/-- What the nodes weigh that are still new. -/
def newWeight
    (next : α → List α)
    (nodes entered : List α) :
    Nat :=
  ((nodes.filter fun a => !entered.contains a).map fun a => (next a).length + 1).sum

/-- The steps that a search can still take. -/
def weight
    (next : α → List α)
    (nodes : List α)
    (st : Search α) :
    Nat :=
  newWeight next nodes st.entered + frameWeight st.frames

theorem newWeight_le_bound
    (next : α → List α)
    (nodes entered : List α) :
    newWeight next nodes entered ≤ bound next nodes := by
  have hsub : ((nodes.filter fun a => !entered.contains a).map
      fun a => (next a).length + 1).Sublist (nodes.map fun a => (next a).length + 1) :=
    (List.filter_sublist).map _
  rw [← sum_eq_bound]
  exact hsub.sum_le_sum (by simp)

/-- Entering a new node takes its weight from the new nodes. -/
theorem newWeight_enter
    [LawfulBEq α]
    (next : α → List α)
    {nodes entered : List α}
    {b : α}
    (hb : b ∈ nodes)
    (hnew : b ∉ entered) :
    newWeight next nodes (entered ++ [b]) + ((next b).length + 1) ≤
      newWeight next nodes entered := by
  have hkeep : ∀ a, (!(entered ++ [b]).contains a) = true → (!entered.contains a) = true := by
    intro a ha
    simp only [Bool.not_eq_true', List.contains_eq_mem, List.mem_append, decide_eq_false_iff_not,
      not_or] at ha ⊢
    exact ha.1
  have hsub : (nodes.filter fun a => !(entered ++ [b]).contains a).Sublist
      (nodes.filter fun a => !entered.contains a) :=
    List.monotone_filter_right nodes hkeep
  have hmem : b ∈ nodes.filter fun a => !entered.contains a := by
    simp [hb, hnew]
  have hnot : b ∉ nodes.filter fun a => !(entered ++ [b]).contains a := by
    simp
  -- The nodes that are new afterwards, and the one that was entered, were new before.
  have hsubperm : (b :: nodes.filter fun a => !(entered ++ [b]).contains a).Subperm
      (nodes.filter fun a => !entered.contains a) :=
    List.cons_subperm_of_not_mem_of_mem hnot hmem hsub.subperm
  obtain ⟨l, hperm, hsublist⟩ := hsubperm
  have hsum := (hperm.map fun a => (next a).length + 1).sum_eq
  have hle := (hsublist.map fun a => (next a).length + 1).sum_le_sum (by simp)
  rw [List.map_cons, List.sum_cons] at hsum
  unfold newWeight
  omega

/-- A step makes the search lighter, if the nodes have the successors of frames. -/
theorem Goes.weight_lt
    [LawfulBEq α]
    (hgoes : Goes next st st')
    {nodes : List α}
    (hnodes : ∀ f ∈ st.frames, ∀ b ∈ f.targets, b ∈ nodes) :
    weight next nodes st' < weight next nodes st := by
  unfold weight
  cases hgoes with
  | @closes f outer hframes htargets hlow =>
      show newWeight next nodes st.entered + frameWeight (lower f.low outer) < _
      rw [hframes, frameWeight_cons, frameWeight_lower]
      omega
  | @leaves f outer hframes htargets hlow =>
      show newWeight next nodes st.entered + frameWeight (lower f.low outer) < _
      rw [hframes, frameWeight_cons, frameWeight_lower]
      omega
  | @enters f outer b targets hframes htargets hnew =>
      have hb : b ∈ nodes :=
        hnodes f (hframes ▸ List.mem_cons_self) b (htargets ▸ List.mem_cons_self)
      have hle := newWeight_enter next hb hnew
      show newWeight next nodes (st.entered ++ [b]) + ((next b).length + 1 + frameWeight
        ({ f with targets } :: outer)) < _
      rw [hframes, frameWeight_cons, frameWeight_cons, htargets, List.length_cons]
      show _ + (_ + (targets.length + 1 + _)) < _
      omega
  | @returns f outer b targets hframes htargets hstack =>
      show newWeight next nodes st.entered +
        frameWeight (lower (st.number b) ({ f with targets } :: outer)) < _
      rw [hframes, frameWeight_lower, frameWeight_cons, frameWeight_cons, htargets,
        List.length_cons]
      show _ + (targets.length + 1 + _) < _
      omega
  | @skips f outer b targets hframes htargets hentered hstack =>
      show newWeight next nodes st.entered + frameWeight ({ f with targets } :: outer) < _
      rw [hframes, frameWeight_cons, frameWeight_cons, htargets, List.length_cons]
      show _ + (targets.length + 1 + _) < _
      omega

end Weight

section Runs

/-- Nothing is being followed, and what was entered are nodes of the graph. -/
structure AtRest
    (next : α → List α)
    (nodes : List α)
    (st : Search α) : Prop where
  inv : Inv next st
  frames : st.frames = []
  inside : ∀ a ∈ st.entered, a ∈ nodes

/-- At rest the stack is empty: everything on it would lead to a frame. -/
theorem AtRest.stack_eq_nil
    {nodes : List α}
    (h : AtRest next nodes st) :
    st.stack = [] := by
  rw [List.eq_nil_iff_forall_not_mem]
  intro a ha
  obtain ⟨c, hc, -⟩ := h.inv.up a ha
  simp [path, h.frames] at hc

theorem atRest_start
    (nodes : List α) :
    AtRest next nodes (start : Search α) :=
  ⟨Inv.start, rfl, by simp [Search.start]⟩

variable {nodes : List α}
variable (hclosed : ∀ a ∈ nodes, ∀ b ∈ next a, b ∈ nodes)

include hclosed

theorem Inv.targets_mem
    (h : Inv next st)
    (hinside : ∀ a ∈ st.entered, a ∈ nodes) :
    ∀ f ∈ st.frames, ∀ b ∈ f.targets, b ∈ nodes := by
  intro f hf b hb
  have hentered := h.mem_entered_of_stack (h.onStack f.node (node_mem_path hf))
  exact hclosed f.node (hinside f.node hentered) b (h.targets f hf b hb)

variable [LawfulBEq α]

/-- A run with enough steps comes to rest, and keeps what was entered. -/
theorem Inv.run
    (h : Inv next st)
    (hinside : ∀ a ∈ st.entered, a ∈ nodes)
    {steps : Nat}
    (hsteps : weight next nodes st ≤ steps) :
    AtRest next nodes (st.run next steps) ∧
      ∀ a ∈ st.entered, a ∈ (st.run next steps).entered := by
  induction steps generalizing st with
  | zero =>
      rw [Search.run]
      refine ⟨⟨h, ?_, hinside⟩, fun a ha => ha⟩
      cases hframes : st.frames with
      | nil =>
          rfl
      | cons f outer =>
          rw [weight, hframes, frameWeight_cons] at hsteps
          omega
  | succ steps ih =>
      rw [Search.run]
      by_cases hframes : st.frames = []
      · rw [if_pos (List.isEmpty_iff.mpr hframes)]
        exact ⟨⟨h, hframes, hinside⟩, fun a ha => ha⟩
      · rw [if_neg (by rwa [List.isEmpty_iff])]
        have hgoes : Goes next st (st.step next) := goes_step hframes
        have htargets := h.targets_mem hclosed hinside
        have hlt := hgoes.weight_lt htargets
        have hkeeps : (∀ a ∈ (st.step next).entered, a ∈ nodes) ∧
            ∀ a ∈ st.entered, a ∈ (st.step next).entered := by
          rcases hgoes.entered_cases with hsame | ⟨f, hf, b, hb, hmore⟩
          · rw [hsame]
            exact ⟨hinside, fun a ha => ha⟩
          · rw [hmore]
            refine ⟨fun a ha => ?_, fun a ha => List.mem_append_left _ ha⟩
            rcases List.mem_append.mp ha with ha | ha
            · exact hinside a ha
            · rw [List.mem_singleton.mp ha]
              exact htargets f hf b hb
        obtain ⟨hrest, hmono⟩ := ih (hgoes.inv h) hkeeps.1 (by omega)
        exact ⟨hrest, fun a ha => hmono a (hkeeps.2 a ha)⟩

/-- Visiting a node comes to rest, keeps what was entered, and enters the node. -/
theorem AtRest.visit
    (h : AtRest next nodes st)
    {a : α}
    (ha : a ∈ nodes) :
    AtRest next nodes (st.visit next (bound next nodes) a) ∧
      ∀ b, b = a ∨ b ∈ st.entered → b ∈ (st.visit next (bound next nodes) a).entered := by
  unfold Search.visit
  by_cases hentered : a ∈ st.entered
  · rw [if_pos (List.contains_iff_mem.mpr hentered)]
    refine ⟨h, ?_⟩
    rintro b (rfl | hb)
    · exact hentered
    · exact hb
  · rw [if_neg (by rwa [List.contains_iff_mem])]
    have hinv : Inv next (st.enter next a) :=
      h.inv.enter hentered (by simp [path, h.frames])
    have hinside : ∀ b ∈ (st.enter next a).entered, b ∈ nodes := by
      intro b hb
      rcases List.mem_append.mp hb with hb | hb
      · exact h.inside b hb
      · rw [List.mem_singleton.mp hb]
        exact ha
    have hweight : weight next nodes (st.enter next a) ≤ bound next nodes := by
      have hle := newWeight_enter next ha hentered
      have hbound := newWeight_le_bound next nodes st.entered
      show newWeight next nodes (st.entered ++ [a]) +
        frameWeight (⟨a, st.entered.length, next a⟩ :: st.frames) ≤ bound next nodes
      rw [h.frames, frameWeight_cons]
      show _ + ((next a).length + 1 + 0) ≤ _
      omega
    obtain ⟨hrest, hmono⟩ := hinv.run hclosed hinside hweight
    refine ⟨hrest, ?_⟩
    rintro b (rfl | hb)
    · exact hmono b (List.mem_append_right _ (List.mem_singleton_self b))
    · exact hmono b (List.mem_append_left _ hb)

/-- Visiting several nodes, one after the other. -/
theorem AtRest.visitAll
    (h : AtRest next nodes st)
    {todo : List α}
    (htodo : ∀ a ∈ todo, a ∈ nodes) :
    AtRest next nodes (todo.foldl (Search.visit next (bound next nodes)) st) ∧
      ∀ a, a ∈ todo ∨ a ∈ st.entered →
        a ∈ (todo.foldl (Search.visit next (bound next nodes)) st).entered := by
  induction todo generalizing st with
  | nil =>
      refine ⟨h, ?_⟩
      rintro a (ha | ha)
      · cases ha
      · exact ha
  | cons a todo ih =>
      obtain ⟨hvisit, hmono⟩ := h.visit hclosed (htodo a List.mem_cons_self)
      obtain ⟨hrest, hmono'⟩ := ih hvisit fun b hb => htodo b (List.mem_cons_of_mem a hb)
      refine ⟨hrest, fun b hb => hmono' b ?_⟩
      rw [List.mem_cons, or_assoc] at hb
      rcases hb with rfl | hb | hb
      · exact Or.inr (hmono b (Or.inl rfl))
      · exact Or.inl hb
      · exact Or.inr (hmono b (Or.inr hb))

end Runs

end Search

section All

variable [BEq α] [LawfulBEq α]
variable {next : α → List α}
variable {nodes : List α}
variable (hclosed : ∀ a ∈ nodes, ∀ b ∈ next a, b ∈ nodes)

include hclosed

/-- Every set of nodes that is found is a component. -/
theorem isComponent_of_mem_all
    {members : List α}
    (h : members ∈ all next nodes) :
    IsComponent next members := by
  obtain ⟨hrest, -⟩ := (Search.atRest_start nodes).visitAll hclosed fun a ha => ha
  exact hrest.inv.found members h

/-- The components that are found divide the nodes. -/
theorem perm_flatten_all
    (hnodup : nodes.Nodup) :
    (all next nodes).flatten.Perm nodes := by
  obtain ⟨hrest, hmono⟩ := (Search.atRest_start nodes).visitAll hclosed fun a ha => ha
  have hperm := hrest.inv.entered
  rw [hrest.stack_eq_nil, List.nil_append] at hperm
  refine hperm.trans ?_
  rw [List.perm_ext_iff_of_nodup hrest.inv.nodup hnodup]
  exact fun a => ⟨hrest.inside a, fun ha => hmono a (Or.inl ha)⟩

end All

end Component
end Schemata
