import Schemata.Proofs.Naming.Words
import Schemata.Proofs.Resolve.Requirement
import Schemata.Proofs.Schema.Ancestry

/-!
# The types of generated code

Each declaration becomes a type, and each case of an interface becomes one too.
A type is outermost, or it stands in the scope of one declaration: there are
the declarations directly inside, and the cases.  The names in one scope are
distinct, which resolution sees to.

**Results.**
* `Site.outermost_or_inner`: every type stands in one scope.
* `nodup_name_of_mem_scopes`: the names in a scope are distinct.
-/

namespace Schemata

namespace Schema

/-- The cases of a declaration, if it is an interface. -/
def cases
    (s : Schema)
    (id : DeclId) :
    List SubType :=
  match (s.decl id).body with
  | .interface body => body.subTypes
  | _ => []

end Schema

namespace Target

/-- A type of generated code: that of a declaration, or that of a case. -/
inductive Site where
  | decl (id : DeclId)
  | case (id : DeclId) (c : SubType)

namespace Site

/-- The declaration that the type is written with. -/
def place : Site → DeclId
  | decl id => id
  | case id _ => id

/-- The name of the declaration or case. -/
def name
    (s : Schema) :
    Site → String
  | decl id => (s.decl id).name
  | case _ c => c.name

/-- The identifier of the type. -/
def ident
    (language : Naming.Language)
    (s : Schema)
    (x : Site) :
    String :=
  Emit.typeIdent language (x.name s)

/-- The fields of a type. -/
def fields
    (s : Schema) :
    Site → List Field
  | decl id =>
      match (s.decl id).body with
      | .type fields | .tuple fields => fields
      | _ => []
  | case id c =>
      match (s.decl id).body with
      | .interface body => body.fieldsOf c
      | _ => []

end Site

/-- The types of the outermost declarations of a package. -/
def outermost
    (s : Schema)
    (package : Nat) :
    List Site :=
  (s.rootsOf package).map .decl

/-- The types directly inside a declaration: nested declarations, then cases. -/
def inner
    (s : Schema)
    (id : DeclId) :
    List Site :=
  (s.childrenOf id).map .decl ++ (s.cases id).map (.case id)

/-- All types. -/
def sites
    (s : Schema) :
    List Site :=
  s.ids.flatMap fun id => .decl id :: (s.cases id).map (.case id)

/-- The types of each scope. -/
def scopes
    (s : Schema) :
    List (List Site) :=
  (List.range s.packages.length).map (outermost s) ++ s.ids.map (inner s)

section Membership

variable {s : Schema}

theorem mem_sites_decl
    (id : DeclId) :
    .decl id ∈ sites s ↔ id ∈ s.ids := by
  simp [sites]

theorem mem_sites_case
    (id : DeclId)
    (c : SubType) :
    .case id c ∈ sites s ↔ id ∈ s.ids ∧ c ∈ s.cases id := by
  simp [sites]

theorem place_mem_ids
    {x : Site}
    (hx : x ∈ sites s) :
    x.place ∈ s.ids := by
  cases x with
  | decl id => exact (mem_sites_decl id).mp hx
  | case id c => exact ((mem_sites_case id c).mp hx).1

theorem mem_inner_decl
    (outer id : DeclId) :
    .decl id ∈ inner s outer ↔ id ∈ s.childrenOf outer := by
  simp [inner]

theorem mem_inner_case
    (outer id : DeclId)
    (c : SubType) :
    .case id c ∈ inner s outer ↔ outer = id ∧ c ∈ s.cases id := by
  constructor
  · intro h
    rcases List.mem_append.mp h with hdecl | hcase
    · obtain ⟨_, -, heq⟩ := List.mem_map.mp hdecl
      cases heq
    · obtain ⟨c', hc, heq⟩ := List.mem_map.mp hcase
      cases heq
      exact ⟨rfl, hc⟩
  · rintro ⟨rfl, hc⟩
    exact List.mem_append_right _ (List.mem_map_of_mem hc)

theorem exists_body_of_case
    {id : DeclId}
    {c : SubType}
    (hc : c ∈ s.cases id) :
    ∃ body, (s.decl id).body = .interface body ∧ c ∈ body.subTypes := by
  unfold Schema.cases at hc
  split at hc
  next body hbody =>
    exact ⟨body, hbody, hc⟩
  next =>
    cases hc

/-- What is inside a declaration is inside one that there is. -/
theorem index_lt_of_mem_inner
    {outer : DeclId}
    {x : Site}
    (hx : x ∈ inner s outer) :
    outer.index < (s.package outer.package).decls.length := by
  by_contra hle
  have habsent : s.decl outer = Decl.absent := by
    rw [Schema.decl, Package.decl, List.getElem?_eq_none (Nat.le_of_not_lt hle)]
    rfl
  have hempty : inner s outer = [] := by
    rw [inner, Schema.childrenOf, Schema.cases, habsent]
    rfl
  rw [hempty] at hx
  cases hx

/-- The declaration is written with the types of the fields. -/
theorem exists_typed_of_mem_fields
    {x : Site}
    (hx : x ∈ sites s)
    {f : Field}
    (hf : f ∈ x.fields s) :
    ∃ place, (place, f.type) ∈ (s.decl x.place).body.typed := by
  cases x with
  | decl id =>
      simp only [Site.place]
      cases hbody : (s.decl id).body with
      | type fields | tuple fields =>
          simp only [Site.fields, hbody] at hf
          exact ⟨_, List.mem_map_of_mem hf⟩
      | interface | enum | service =>
          simp [Site.fields, hbody] at hf
  | case id c =>
      obtain ⟨body, hbody, hc⟩ := exists_body_of_case ((mem_sites_case id c).mp hx).2
      simp only [Site.fields, hbody, InterfaceBody.fieldsOf, List.mem_append] at hf
      simp only [Site.place, hbody]
      rcases hf with hf | hf
      · exact ⟨_, List.mem_append_left _ (List.mem_map_of_mem hf)⟩
      · exact ⟨_, List.mem_append_right _
          (List.mem_flatMap.mpr ⟨c, hc, List.mem_map_of_mem hf⟩)⟩

theorem type_mem_memberTypes
    {x : Site}
    (hx : x ∈ sites s)
    {f : Field}
    (hf : f ∈ x.fields s) :
    f.type ∈ (s.decl x.place).body.memberTypes := by
  cases x with
  | decl id =>
      simp only [Site.place]
      cases hbody : (s.decl id).body with
      | type fields | tuple fields =>
          simp only [Site.fields, hbody] at hf
          simpa [DeclBody.memberTypes, DeclBody.records] using ⟨f, hf, rfl⟩
      | interface | enum | service =>
          simp [Site.fields, hbody] at hf
  | case id c =>
      obtain ⟨body, hbody, hc⟩ := exists_body_of_case ((mem_sites_case id c).mp hx).2
      simp only [Site.fields, hbody] at hf
      simp only [Site.place, hbody, DeclBody.memberTypes, DeclBody.records]
      exact List.mem_map_of_mem
        (List.mem_flatten.mpr ⟨_, List.mem_map_of_mem hc, hf⟩)

end Membership

section Linked

variable {s : Schema}
variable (hs : s.Linked)

include hs

/-- Every type is outermost, or it is directly inside a declaration of its package. -/
theorem Site.outermost_or_inner
    {x : Site}
    (hx : x ∈ sites s) :
    x ∈ outermost s x.place.package ∨
      ∃ outer ∈ s.ids, outer.package = x.place.package ∧ x ∈ inner s outer := by
  cases x with
  | decl id =>
      have hid := (mem_sites_decl id).mp hx
      have hforest := hs.forest_of_mem hid
      obtain ⟨hpackage, hindex⟩ := (s.mem_ids_iff id).mp hid
      cases hparent : (s.decl id).parent with
      | none =>
          refine Or.inl (List.mem_map.mpr ⟨id, List.mem_map.mpr ⟨id.index, ?_, rfl⟩, rfl⟩)
          exact (hforest.roots id.index).mpr ⟨_, Package.getElem?_decl _ hindex, hparent⟩
      | some outer =>
          obtain ⟨-, houter, hmem⟩ := hforest.mem_children_of_parent hparent
          refine Or.inr ⟨⟨id.package, outer⟩, (s.mem_ids_iff _).mpr ⟨hpackage, houter⟩, rfl, ?_⟩
          exact (mem_inner_decl _ _).mpr (List.mem_map.mpr ⟨id.index, hmem, rfl⟩)
  | case id c =>
      obtain ⟨hid, hc⟩ := (mem_sites_case id c).mp hx
      exact Or.inr ⟨id, hid, rfl, (mem_inner_case id id c).mpr ⟨rfl, hc⟩⟩

theorem mem_sites_of_mem_inner
    {outer : DeclId}
    (houter : outer ∈ s.ids)
    {x : Site}
    (hx : x ∈ inner s outer) :
    x ∈ sites s ∧ x.place.package = outer.package := by
  cases x with
  | decl id =>
      obtain ⟨index, hindex, rfl⟩ := List.mem_map.mp ((mem_inner_decl _ _).mp hx)
      obtain ⟨hpackage, hlt⟩ := (s.mem_ids_iff outer).mp houter
      have hchild := ((hs.forest_of_mem houter).parent_of_mem_children hlt hindex).1
      exact ⟨(mem_sites_decl _).mpr ((s.mem_ids_iff _).mpr ⟨hpackage, hchild⟩), rfl⟩
  | case id c =>
      obtain ⟨rfl, hc⟩ := (mem_inner_case _ _ _).mp hx
      exact ⟨(mem_sites_case _ _).mpr ⟨houter, hc⟩, rfl⟩

theorem mem_sites_of_mem_outermost
    {package : Nat}
    (hpackage : package < s.packages.length)
    {x : Site}
    (hx : x ∈ outermost s package) :
    x ∈ sites s ∧ x.place.package = package := by
  obtain ⟨id, hid, rfl⟩ := List.mem_map.mp hx
  refine ⟨(mem_sites_decl id).mpr (hs.mem_ids_of_mem_rootsOf hpackage hid), ?_⟩
  obtain ⟨index, -, rfl⟩ := List.mem_map.mp hid
  rfl

theorem mem_sites_of_mem_scopes
    {scope : List Site}
    (hscope : scope ∈ scopes s)
    {x : Site}
    (hx : x ∈ scope) :
    x ∈ sites s := by
  rcases List.mem_append.mp hscope with hroots | hinner
  · obtain ⟨package, hpackage, rfl⟩ := List.mem_map.mp hroots
    exact (mem_sites_of_mem_outermost hs (List.mem_range.mp hpackage) hx).1
  · obtain ⟨outer, houter, rfl⟩ := List.mem_map.mp hinner
    exact (mem_sites_of_mem_inner hs houter hx).1

variable (hwf : s.WellFormed)

include hwf

/-- Nested declarations and cases of one declaration have distinct names. -/
theorem nodup_name_inner
    {id : DeclId}
    (hid : id ∈ s.ids) :
    ((inner s id).map (Site.name s)).Nodup := by
  obtain ⟨-, hindex⟩ := (s.mem_ids_iff id).mp hid
  have hchildren : ((s.childrenOf id).map fun c => (s.decl c).name).Nodup := by
    have hnames := (hs.forest_of_mem hid).names _
      (List.mem_of_getElem? (Package.getElem?_decl _ hindex))
    rw [Schema.childrenOf, List.map_map]
    exact hnames
  have hmap : (inner s id).map (Site.name s) =
      ((s.childrenOf id).map fun c => (s.decl c).name) ++ (s.cases id).map (·.name) := by
    rw [inner, List.map_append, List.map_map, List.map_map]
    rfl
  rw [hmap, List.nodup_append']
  have hbody := (hwf.decl id).body
  unfold Schema.cases
  split
  next body heq =>
    rw [heq] at hbody
    refine ⟨hchildren, hbody.names, fun name hchild hcase => ?_⟩
    obtain ⟨c, hc, rfl⟩ := List.mem_map.mp hcase
    refine hbody.notNested c hc ?_
    rw [Schema.childrenOf, List.map_map] at hchild
    exact hchild
  next =>
    exact ⟨hchildren, List.nodup_nil, by simp⟩

/-- The names in a scope are distinct. -/
theorem nodup_name_of_mem_scopes
    {scope : List Site}
    (hscope : scope ∈ scopes s) :
    (scope.map (Site.name s)).Nodup := by
  rcases List.mem_append.mp hscope with hroots | hinner
  · obtain ⟨package, hpackage, rfl⟩ := List.mem_map.mp hroots
    have hforest := hs.forest _ _ (s.getElem?_package (List.mem_range.mp hpackage))
    rw [outermost, List.map_map, Schema.rootsOf, List.map_map]
    exact hforest.rootNames
  · obtain ⟨id, hid, rfl⟩ := List.mem_map.mp hinner
    exact nodup_name_inner hs hwf hid

/-- No type is listed twice. -/
theorem nodup_sites :
    (sites s).Nodup := by
  rw [sites, List.nodup_flatMap]
  constructor
  · intro id hid
    have hcases : ((s.cases id).map (Site.case id)).Nodup :=
      (List.nodup_append'.mp (nodup_name_inner hs hwf hid).of_map).2.1
    exact List.nodup_cons.mpr ⟨by simp, hcases⟩
  · refine s.nodup_ids.imp fun {a b} hne x hxa hxb => hne ?_
    have hplace : ∀ {id : DeclId}, x ∈ Site.decl id :: (s.cases id).map (Site.case id) →
        x.place = id := by
      intro id hx
      rcases List.mem_cons.mp hx with rfl | hcase
      · rfl
      · obtain ⟨c, -, rfl⟩ := List.mem_map.mp hcase
        rfl
    exact (hplace hxa).symm.trans (hplace hxb)

end Linked

end Target
end Schemata
