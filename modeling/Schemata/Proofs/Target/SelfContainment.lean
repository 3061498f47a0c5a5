import Schemata.Proofs.Resolve.Cycle
import Schemata.Proofs.Schema.Nesting
import Schemata.Target.Basic

/-!
# Structs that contain themselves

A struct stores another where a field, required or not, has it as its type,
and it contains itself where a path of such fields leads back to it.

`leadsTo` searches with a stack, and a struct that it has seen never goes on
the stack again.  Where it answers yes there is a path, read off from its
steps.  Where it answers no, the structs that it has seen in the end are closed:
whatever one of them stores is among them, and none stores the one that is
looked for (`Closed`), so that no path leads there.  The start itself has been
seen from the beginning, which is why it is looked for before it is looked up
among the seen ones.

**Results.** `containsItself_iff`, `refusal?_of_containsItself`,
`resolve_containsItself`.
-/

namespace Schemata

/-- A type or tuple has a field, required or optional, whose type is directly a type or tuple. -/
structure Schema.Stores
    (s : Schema)
    (d t : DeclId) : Prop where
  source : s.IsStruct d
  target : s.IsStruct t
  field : ∃ f ∈ (s.decl d).fields, f.type = .decl t

theorem Schema.Requires.stores
    {s : Schema}
    {d t : DeclId}
    (h : s.Requires d t) :
    s.Stores d t := by
  obtain ⟨f, hf, -, htype⟩ := h.field
  exact ⟨h.source, h.target, f, hf, htype⟩

namespace Target
namespace Swift

section Search

variable (s : Schema)

/-- The field has the type, which is a struct. -/
structure Names
    (f : Field)
    (t : DeclId) : Prop where
  type : f.type = .decl t
  isStruct : (s.decl t).body.isStruct = true

/-- A declaration has a field that names the struct. -/
def Holds
    (d t : DeclId) : Prop :=
  ∃ f ∈ (s.decl d).fields, Names s f t

/-- A field names a struct from which a path leads to the goal, if it is not the goal itself. -/
def Meets
    (goal : DeclId)
    (fields : List Field) : Prop :=
  ∃ f ∈ fields, ∃ t, Names s f t ∧ Relation.ReflTransGen (Holds s) t goal

variable {s}
variable {goal : DeclId}
variable {seen stack : List DeclId}
variable {fields : List Field}

theorem decl?_eq_some_iff
    (type : TypeRef)
    (id : DeclId) :
    type.decl? = some id ↔ type = .decl id := by
  cases type <;> simp [TypeRef.decl?]

theorem Meets.transGen
    {d : DeclId}
    (h : Meets s goal (s.decl d).fields) :
    Relation.TransGen (Holds s) d goal := by
  obtain ⟨f, hf, t, hnames, hpath⟩ := h
  exact .head' ⟨f, hf, hnames⟩ hpath

theorem Meets.tail
    (f : Field)
    (h : Meets s goal fields) :
    Meets s goal (f :: fields) := by
  obtain ⟨g, hg, ht⟩ := h
  exact ⟨g, List.mem_cons_of_mem f hg, ht⟩

/-- Where the search answers yes, a path leads to the goal from a field or from the stack. -/
theorem meets_of_leadsTo
    (hgoal : (s.decl goal).body.isStruct = true)
    (h : leadsTo s goal seen stack fields = true) :
    Meets s goal fields ∨ ∃ d ∈ stack, Relation.TransGen (Holds s) d goal := by
  fun_induction leadsTo s goal seen stack fields with
  | case1 seen =>
      cases h
  | case2 seen id stack ih =>
      rcases ih h with hmeets | ⟨d, hd, hpath⟩
      · exact Or.inr ⟨id, List.mem_cons_self, hmeets.transGen⟩
      · exact Or.inr ⟨d, List.mem_cons_of_mem id hd, hpath⟩
  | case3 seen stack f fields hnone ih =>
      exact (ih h).imp_left (Meets.tail f)
  | case4 seen stack f fields htype =>
      have hnames : Names s f goal := ⟨(decl?_eq_some_iff _ _).mp htype, hgoal⟩
      exact Or.inl ⟨f, List.mem_cons_self, goal, hnames, .refl⟩
  | case5 seen stack f fields target htype hne hnew ih =>
      have hnames : Names s f target := ⟨(decl?_eq_some_iff _ _).mp htype, hnew.1⟩
      rcases ih h with hmeets | ⟨d, hd, hpath⟩
      · exact Or.inl (hmeets.tail f)
      · rcases List.mem_cons.mp hd with rfl | hd
        · exact Or.inl ⟨f, List.mem_cons_self, d, hnames, hpath.to_reflTransGen⟩
        · exact Or.inr ⟨d, hd, hpath⟩
  | case6 seen stack f fields target htype hne hold ih =>
      exact (ih h).imp_left (Meets.tail f)

variable (s) in
/-- What the fields name is among the found structs and is not the goal. -/
def Closed
    (goal : DeclId)
    (found : DeclId → Prop)
    (fields : List Field) : Prop :=
  ∀ f ∈ fields, ∀ t, Names s f t → t ≠ goal ∧ found t

theorem Closed.nil
    {found : DeclId → Prop} :
    Closed s goal found [] := by
  intro f hf
  cases hf

theorem Closed.cons
    {found : DeclId → Prop}
    {f : Field}
    (hfirst : ∀ t, Names s f t → t ≠ goal ∧ found t)
    (h : Closed s goal found fields) :
    Closed s goal found (f :: fields) := by
  intro g hg
  rcases List.mem_cons.mp hg with rfl | hg
  · exact hfirst
  · exact h g hg

/-- Where the search answers no, it ends with structs that are closed: those that were seen before
and not on the stack are left as they are. -/
theorem exists_closed_of_leadsTo
    (h : leadsTo s goal seen stack fields = false) :
    ∃ found : DeclId → Prop, (∀ d ∈ seen, found d) ∧ Closed s goal found fields ∧
      ∀ d, found d → d ∈ stack ∨ d ∉ seen → Closed s goal found (s.decl d).fields := by
  fun_induction leadsTo s goal seen stack fields with
  | case1 seen =>
      refine ⟨(· ∈ seen), fun d hd => hd, .nil, ?_⟩
      rintro d hd (hstack | hnew)
      · cases hstack
      · exact absurd hd hnew
  | case2 seen id stack ih =>
      obtain ⟨found, hseen, hfields, hclosed⟩ := ih h
      refine ⟨found, hseen, .nil, fun d hd hplace => ?_⟩
      rcases hplace with hstack | hnew
      · rcases List.mem_cons.mp hstack with rfl | hstack
        · exact hfields
        · exact hclosed d hd (Or.inl hstack)
      · exact hclosed d hd (Or.inr hnew)
  | case3 seen stack f fields hnone ih =>
      obtain ⟨found, hseen, hfields, hclosed⟩ := ih h
      refine ⟨found, hseen, hfields.cons fun t hnames => ?_, hclosed⟩
      rw [(decl?_eq_some_iff _ _).mpr hnames.type] at hnone
      cases hnone
  | case4 seen stack f fields htype =>
      cases h
  | case5 seen stack f fields target htype hne hnew ih =>
      obtain ⟨found, hseen, hfields, hclosed⟩ := ih h
      have hfound : found target := hseen target List.mem_cons_self
      refine ⟨found, fun d hd => hseen d (List.mem_cons_of_mem _ hd), hfields.cons fun t hnames => ?_,
        fun d hd hplace => hclosed d hd ?_⟩
      · rw [(decl?_eq_some_iff _ _).mpr hnames.type] at htype
        obtain rfl := Option.some.inj htype
        exact ⟨hne, hfound⟩
      · by_cases heq : d = target
        · exact Or.inl (List.mem_cons.mpr (Or.inl heq))
        · refine hplace.imp (List.mem_cons_of_mem _) fun hnot => ?_
          simpa [heq] using hnot
  | case6 seen stack f fields target htype hne hold ih =>
      obtain ⟨found, hseen, hfields, hclosed⟩ := ih h
      refine ⟨found, hseen, hfields.cons fun t hnames => ?_, hclosed⟩
      rw [(decl?_eq_some_iff _ _).mpr hnames.type] at htype
      obtain rfl := Option.some.inj htype
      -- a struct that does not go on the stack has been seen
      have hmem : t ∈ seen := by
        by_contra hnot
        exact hold ⟨hnames.isStruct, hnot⟩
      exact ⟨hne, hseen t hmem⟩

/-- The search from a struct comes back to it exactly along a path of fields. -/
theorem leadsTo_self_iff
    {id : DeclId}
    (hstruct : (s.decl id).body.isStruct = true) :
    leadsTo s id [id] [id] [] = true ↔ Relation.TransGen (Holds s) id id := by
  constructor
  · intro h
    rcases meets_of_leadsTo hstruct h with ⟨f, hf, -⟩ | ⟨d, hd, hpath⟩
    · cases hf
    · obtain rfl := List.mem_singleton.mp hd
      exact hpath
  · intro hpath
    by_contra hno
    obtain ⟨found, hseen, -, hclosed⟩ := exists_closed_of_leadsTo (Bool.not_eq_true _ ▸ hno)
    have hall : ∀ d, found d → Closed s id found (s.decl d).fields := fun d hd =>
      hclosed d hd (Classical.em (d ∈ [id]))
    have hstart : found id := hseen id (List.mem_singleton_self id)
    -- all places on the path are among the closed structs, none of which is the goal
    have hinside : ∀ t, Relation.TransGen (Holds s) id t → t ≠ id ∧ found t := by
      intro t h
      induction h with
      | single hstep =>
          obtain ⟨f, hf, hnames⟩ := hstep
          exact hall id hstart f hf _ hnames
      | tail _ hstep ih =>
          obtain ⟨f, hf, hnames⟩ := hstep
          exact hall _ ih.2 f hf _ hnames
    exact (hinside id hpath).1 rfl

end Search

section Paths

variable {s : Schema}

theorem holds_of_stores
    {d t : DeclId}
    (h : s.Stores d t) :
    Holds s d t := by
  obtain ⟨f, hf, htype⟩ := h.field
  exact ⟨f, hf, htype, ((Schema.isStruct_iff t).mp h.target).2⟩

theorem stores_of_holds
    (hnames : s.NamesExist)
    {d t : DeclId}
    (hd : s.IsStruct d)
    (h : Holds s d t) :
    s.Stores d t := by
  obtain ⟨f, hf, htype, hstruct⟩ := h
  have ht : t ∈ s.ids := by
    refine hnames d hd.1 f hf t ?_
    rw [htype]
    exact List.mem_singleton_self t
  exact ⟨hd, (Schema.isStruct_iff t).mpr ⟨ht, hstruct⟩, f, hf, htype⟩

theorem transGen_stores
    (hnames : s.NamesExist)
    {d t : DeclId}
    (hd : s.IsStruct d)
    (h : Relation.TransGen (Holds s) d t) :
    Relation.TransGen s.Stores d t := by
  have hboth : Relation.TransGen s.Stores d t ∧ s.IsStruct t := by
    induction h with
    | single hstep =>
        have hstores := stores_of_holds hnames hd hstep
        exact ⟨.single hstores, hstores.target⟩
    | tail _ hstep ih =>
        have hstores := stores_of_holds hnames ih.2 hstep
        exact ⟨ih.1.tail hstores, hstores.target⟩
  exact hboth.1

theorem isStruct_of_transGen
    {d t : DeclId}
    (h : Relation.TransGen s.Stores d t) :
    s.IsStruct d := by
  obtain ⟨u, hfirst, -⟩ := Relation.TransGen.head'_iff.mp h
  exact hfirst.source

/-- Where fields mention declarations of the schema only, the check finds exactly the structs from
which a path of fields leads back. -/
theorem containsItself_iff
    (hnames : s.NamesExist)
    (id : DeclId) :
    containsItself s id = true ↔ Relation.TransGen s.Stores id id := by
  rw [containsItself, Bool.and_eq_true]
  constructor
  · rintro ⟨hstruct, hleads⟩
    have hpath := (leadsTo_self_iff hstruct).mp hleads
    have hid : id ∈ s.ids := by
      by_contra hnot
      obtain ⟨t, ⟨f, hf, -⟩, -⟩ := Relation.TransGen.head'_iff.mp hpath
      rw [Schema.decl_eq_absent hnot] at hf
      cases hf
    exact transGen_stores hnames ((Schema.isStruct_iff id).mpr ⟨hid, hstruct⟩) hpath
  · intro hpath
    have hstruct := ((Schema.isStruct_iff id).mp (isStruct_of_transGen hpath)).2
    have hholds : Relation.TransGen (Holds s) id id :=
      Relation.TransGen.mono (fun _ _ => holds_of_stores) _ _ hpath
    exact ⟨hstruct, (leadsTo_self_iff hstruct).mpr hholds⟩

end Paths

section Refusal

variable {s : Schema}

theorem endpointFeature?_ne
    (e : Endpoint) :
    endpointFeature? e ≠ some "a struct that contains itself" := by
  unfold endpointFeature?
  split
  · decide
  · split
    · decide
    · simp

theorem feature?_ne
    (body : DeclBody) :
    feature? body ≠ some "a struct that contains itself" := by
  unfold feature?
  split
  · intro h
    obtain ⟨e, -, he⟩ := List.exists_of_findSome?_eq_some h
    exact endpointFeature?_ne e he
  · split
    · decide
    · simp

/-- A refusal for a struct that contains itself is about one inside the root. -/
theorem containsItself_of_refusal?
    {root : DeclId}
    {r : Refusal}
    (h : refusal? s root = some r)
    (hfeature : r.feature = "a struct that contains itself") :
    r.decl ∈ s.withDescendants root ∧ containsItself s r.decl = true := by
  unfold refusal? at h
  split at h
  next id hfind =>
    obtain rfl := Option.some.inj h
    exact ⟨List.mem_of_find?_eq_some hfind, List.find?_some hfind⟩
  next hfind =>
    obtain ⟨id, -, hid⟩ := List.exists_of_findSome?_eq_some h
    obtain ⟨feature, hsome, rfl⟩ := Option.map_eq_some_iff.mp hid
    subst hfeature
    exact absurd hsome (feature?_ne _)

/-- A struct inside the root that contains itself comes before all other reasons to refuse it. -/
theorem refusal?_of_containsItself
    {root id : DeclId}
    (hid : id ∈ s.withDescendants root)
    (h : containsItself s id = true) :
    ∃ first, refusal? s root = some ⟨first, "a struct that contains itself"⟩ := by
  have hsome : ((s.withDescendants root).find? (containsItself s)).isSome = true :=
    List.find?_isSome.mpr ⟨id, hid, h⟩
  obtain ⟨first, hfirst⟩ := Option.isSome_iff_exists.mp hsome
  refine ⟨first, ?_⟩
  rw [refusal?, hfirst]

end Refusal
end Swift
end Target

/-- In a schema without errors the structs that contain themselves are exactly those from which a
path of fields leads back; the declarations of every warning are among them.  A root is refused for
this reason exactly if it has such a declaration inside, and the error is about one of them. -/
theorem resolve_containsItself
    {options : ResolveOptions}
    {files : List SourceFile}
    {r : Resolved}
    (h : resolve options files = .ok r) :
    (∀ id, Target.Swift.containsItself r.schema id = true ↔
      Relation.TransGen r.schema.Stores id id) ∧
    (∀ w ∈ r.warnings, ∃ c, Cycle.Warns r.schema w c) ∧
    (∀ w c, Cycle.Warns r.schema w c → ∀ id ∈ c,
      Target.Swift.containsItself r.schema id = true) ∧
    ∀ package < r.schema.packages.length, ∀ root ∈ r.schema.rootsOf package,
      ((∃ id, r.schema.rootOf id = root ∧ Relation.TransGen r.schema.Stores id id) ↔
        ∃ e, Target.swift.error? r.schema root = some e ∧
          e.feature = "a struct that contains itself") ∧
      ∀ e, Target.swift.error? r.schema root = some e →
        e.feature = "a struct that contains itself" →
        ∃ id, r.schema.rootOf id = root ∧ Relation.TransGen r.schema.Stores id id ∧
          e = ⟨"swift", r.schema.displayName id, "a struct that contains itself",
            (r.schema.decl id).span⟩ := by
  have hresolved := Resolve.resolvedFrom_of_resolve h
  have hs : r.schema.Linked := linked_of_resolvedFrom hresolved
  have hself := Target.Swift.containsItself_iff (namesExist_of_resolvedFrom hresolved)
  refine ⟨hself, fun w hw => (resolve_warnings h).exists_warns hw, ?_, ?_⟩
  · rintro w c ⟨hcycle, -⟩ id hid
    rw [hself]
    exact Relation.TransGen.mono (fun _ _ => Schema.Requires.stores) _ _ (hcycle.transGen_self hid)
  · intro package hpackage root hroot
    -- an error for this reason is about a struct inside the root that contains itself
    have herror : ∀ e, Target.swift.error? r.schema root = some e →
        e.feature = "a struct that contains itself" →
        ∃ id, r.schema.rootOf id = root ∧ Relation.TransGen r.schema.Stores id id ∧
          e = ⟨"swift", r.schema.displayName id, "a struct that contains itself",
            (r.schema.decl id).span⟩ := by
      intro e he hfeature
      obtain ⟨refused, hrefused, rfl⟩ := Option.map_eq_some_iff.mp he
      obtain ⟨hmem, hitself⟩ := Target.Swift.containsItself_of_refusal? hrefused hfeature
      have hinside := (hs.mem_withDescendants_iff hpackage hroot _).mp hmem
      refine ⟨refused.decl, hinside.2, (hself _).mp hitself, ?_⟩
      rw [← hfeature]
      rfl
    refine ⟨⟨?_, ?_⟩, herror⟩
    · rintro ⟨id, hid, hpath⟩
      have hmem := (hs.mem_withDescendants_iff hpackage hroot id).mpr
        ⟨(Target.Swift.isStruct_of_transGen hpath).1, hid⟩
      obtain ⟨first, hfirst⟩ :=
        Target.Swift.refusal?_of_containsItself hmem ((hself id).mpr hpath)
      refine ⟨_, Option.map_eq_some_iff.mpr ⟨_, hfirst, rfl⟩, rfl⟩
    · rintro ⟨e, he, hfeature⟩
      obtain ⟨id, hid, hpath, -⟩ := herror e he hfeature
      exact ⟨id, hid, hpath⟩

namespace Sample

/-- A type that may have a lid, whose type is inside it and refers back to it, and a type that refers
to itself in an array only. -/
def boxes : SourceFile :=
  { file := 0
    identity := ⟨⟨["boxes"]⟩, none⟩
    tree :=
      { doc := []
        imports := []
        decls :=
          [declAt 0 "Box"
              (.type [.decl (declAt 5 "Lid" (.tuple [link "box" "Box"])),
                field "lid" true (.name ⟨none, ["Lid"], default⟩)]),
            declAt 20 "Shelf"
              (.type [field "shelves" false (.array (.name ⟨none, ["Shelf"], default⟩))])] } }

/-- The schema of the file with boxes. -/
def boxSchema : Schema :=
  ⟨[{ identity := ⟨⟨["boxes"]⟩, none⟩
      ns := ⟨["boxes"], none⟩
      doc := []
      decls :=
        [⟨⟨0, 0⟩, "Box", [], none, [1],
            .type [⟨"lid", "lid", .decl ⟨0, 1⟩, true, [], default⟩], ⟨0, 0, 10⟩⟩,
          ⟨⟨0, 1⟩, "Lid", [], some 0, [], .tuple [required "box" (.decl ⟨0, 0⟩)], ⟨0, 5, 15⟩⟩,
          ⟨⟨0, 2⟩, "Shelf", [], none, [],
            .type [required "shelves" (.array (.decl ⟨0, 2⟩))], ⟨0, 20, 30⟩⟩]
      roots := [0, 2] }]⟩

theorem resolve_boxes :
    resolve options [boxes] = .ok ⟨boxSchema, []⟩ := by
  with_unfolding_all rfl

end Sample

/-- A box contains itself through its lid, which no warning tells as the lid is optional; a shelf of
shelves does not. -/
theorem resolve_containsItself_boxes :
    resolve Sample.options [Sample.boxes] = .ok ⟨Sample.boxSchema, []⟩ ∧
      Relation.TransGen Sample.boxSchema.Stores ⟨0, 0⟩ ⟨0, 0⟩ ∧
      (∃ e, Target.swift.error? Sample.boxSchema ⟨0, 0⟩ = some e ∧
        e.feature = "a struct that contains itself") ∧
      ¬ Relation.TransGen Sample.boxSchema.Stores ⟨0, 2⟩ ⟨0, 2⟩ := by
  obtain ⟨hself, -, -, hroots⟩ := resolve_containsItself Sample.resolve_boxes
  have hbox : Relation.TransGen Sample.boxSchema.Stores ⟨0, 0⟩ ⟨0, 0⟩ := by
    rw [← hself]
    cbv
  refine ⟨Sample.resolve_boxes, hbox, ?_, ?_⟩
  · exact (hroots 0 (by decide) ⟨0, 0⟩ (by decide)).1.mp ⟨⟨0, 0⟩, by decide, hbox⟩
  · rw [← hself, Bool.not_eq_true]
    cbv

end Schemata
