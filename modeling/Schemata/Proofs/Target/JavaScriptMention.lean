import Schemata.Proofs.Emit.Code
import Schemata.Proofs.Target.Site
import Schemata.Target.JavaScript

/-!
# JavaScript: what a class names

A class names the declarations that its fields are read with, and the class of
an interface names itself to get at its cases.  Fields are read by expressions
with functions inside, so a name is listed with the number of functions around
it.

The list is the right one: what is listed is printed inside the class, and
nothing else is, since a class does not change where the names on the list do
not change.

**Results.**
* `shows_of_mem_references`: what is listed is printed in the class of the
  type, which is in the code of its declaration.
* `classBody_eq_of_names`: nothing else is named in a class.
-/

namespace Schemata
namespace Target
namespace JavaScript

open Text (Within)

/-- A declaration that is named inside so many functions. -/
structure Mention where
  decl : DeclId
  depth : Nat

mutual

/-- What is named where a type is read at a depth. -/
def mentions : Nat → TypeRef → List Mention
  | _, .primitive _ => []
  | depth, .decl id => [⟨id, depth⟩]
  | depth, .array item => mentions (depth + 1) item
  | depth, .map _ item => mentions (depth + 1) item
  | depth, .tuple items => itemMentions (depth + 1) items

/-- What is named where items are read at a depth. -/
def itemMentions : Nat → List TypeRef → List Mention
  | _, [] => []
  | depth, type :: rest => mentions depth type ++ itemMentions depth rest

end

theorem mem_itemMentions
    (depth : Nat)
    (items : List TypeRef)
    (m : Mention) :
    m ∈ itemMentions depth items ↔ ∃ item ∈ items, m ∈ mentions depth item := by
  induction items with
  | nil => simp [itemMentions]
  | cons item items ih => simp [itemMentions, ih]

theorem mem_mentioned_of_mentions
    {depth : Nat}
    {type : TypeRef}
    {m : Mention}
    (h : m ∈ mentions depth type) :
    m.decl ∈ type.mentioned := by
  induction type using TypeRef.memberInduction generalizing depth with
  | primitive p =>
      simp [mentions] at h
  | decl id =>
      rw [List.mem_singleton.mp h]
      simp [TypeRef.mentioned, TypeRef.parts, TypeRef.decl?]
  | array item ih =>
      exact (TypeRef.mem_mentioned_array _ _).mpr (ih h)
  | map key item ihKey ih =>
      exact (TypeRef.mem_mentioned_map _ _ _).mpr (.inr (ih h))
  | tuple items ih =>
      obtain ⟨item, hitem, hm⟩ := (mem_itemMentions _ _ _).mp h
      exact (TypeRef.mem_mentioned_tuple _ _).mpr ⟨item, hitem, ih item hitem hm⟩

section Printed

variable (s : Schema)
variable (home : Nat)
variable (name : String)

theorem decodeExpr_primitive
    (depth : Nat)
    (value : String)
    (p : Primitive) :
    decodeExpr s home name depth value (.primitive p) = decodePrimitive value name p :=
  rfl

theorem decodeExpr_decl
    (depth : Nat)
    (value : String)
    (id : DeclId) :
    decodeExpr s home name depth value (.decl id) = s!"{classRef s home id}.decode({value})" :=
  rfl

theorem decodeExpr_array
    (depth : Nat)
    (value : String)
    (item : TypeRef) :
    decodeExpr s home name depth value (.array item) =
      let inner := decodeExpr s home name (depth + 1) (parameter depth) item
      s!"_array({name}, {value}, ({parameter depth}) => {inner})" :=
  rfl

theorem decodeExpr_map
    (depth : Nat)
    (value : String)
    (key item : TypeRef) :
    decodeExpr s home name depth value (.map key item) =
      let inner := decodeExpr s home name (depth + 1) (parameter depth) item
      s!"_map({name}, {value}, {decodeKey name key}, ({parameter depth}) => {inner})" :=
  rfl

theorem decodeExpr_tuple
    (depth : Nat)
    (value : String)
    (items : List TypeRef) :
    decodeExpr s home name depth value (.tuple items) =
      let inner := String.intercalate ", " (decoders s home name depth items)
      s!"_tuple({name}, {value}, [{inner}])" :=
  rfl

theorem decoders_cons
    (depth : Nat)
    (type : TypeRef)
    (rest : List TypeRef) :
    decoders s home name depth (type :: rest) =
      s!"({parameter depth}) => {decodeExpr s home name (depth + 1) (parameter depth) type}" ::
        decoders s home name depth rest :=
  rfl

theorem mem_decoders
    (depth : Nat)
    {items : List TypeRef}
    {item : TypeRef}
    (h : item ∈ items) :
    s!"({parameter depth}) => {decodeExpr s home name (depth + 1) (parameter depth) item}" ∈
      decoders s home name depth items := by
  induction items with
  | nil =>
      cases h
  | cons first rest ih =>
      rw [decoders_cons]
      rcases List.mem_cons.mp h with rfl | h
      · exact List.mem_cons_self
      · exact List.mem_cons_of_mem _ (ih h)

/-- An expression that reads a type prints each class that it names. -/
theorem within_decodeExpr
    {depth : Nat}
    (value : String)
    {type : TypeRef}
    {m : Mention}
    (h : m ∈ mentions depth type) :
    Within (classRef s home m.decl) (decodeExpr s home name depth value type) := by
  induction type using TypeRef.memberInduction generalizing depth value with
  | primitive p =>
      simp [mentions] at h
  | decl id =>
      rw [List.mem_singleton.mp h, decodeExpr_decl]
      exact ((Within.refl.append_left _).append_left _).append_left _
  | array item ih =>
      rw [decodeExpr_array]
      exact ((ih (parameter depth) h).append_right _).append_left _
  | map key item ihKey ih =>
      rw [decodeExpr_map]
      exact ((ih (parameter depth) h).append_right _).append_left _
  | tuple items ih =>
      obtain ⟨item, hitem, hm⟩ := (mem_itemMentions _ _ _).mp h
      have hitem' := (ih item hitem (parameter depth) hm).append_right
        s!"({parameter depth}) => "
      rw [decodeExpr_tuple]
      exact ((hitem'.intercalate ", " (mem_decoders s home name depth hitem)).append_right
        _).append_left _

end Printed

section Class

open Code (Prints Defines)
open Emit (Member)

variable (s : Schema)

/-- The inside of the class of a type. -/
def classBody
    (placement : Placement) :
    Site → Code
  | .decl id =>
      let name := typeIdent (s.decl id).name
      match (s.decl id).body with
      | .type fields => objectMembers s placement id.package name none fields
      | .tuple fields => tupleMembers s id.package name fields
      | .interface body => interfaceMembers s id name body
      | .enum _ _ => enumMembers name
      | .service _ => []
  | .case id c =>
      match (s.decl id).body with
      | .interface body =>
          let tag :=
            match body.strategy with
            | .tagged tag => some ⟨tag, c.literal⟩
            | .untagged => none
          objectMembers s placement id.package (typeIdent c.name) tag (body.fieldsOf c)
      | _ => []

/-- What is named inside the class of a type: what its fields are read with, and the class of an
interface once for each case. -/
def references
    (x : Site) :
    List Mention :=
  (x.fields s).flatMap (fun f => mentions 0 f.type) ++
    match x with
    | .decl id => (s.cases id).map fun _ => ⟨id, 0⟩
    | .case _ _ => []

theorem defines_classCode
    (id : DeclId)
    (body : Code) :
    Defines (typeIdent (s.decl id).name) body (classCode s id body) := by
  unfold classCode
  split
  · exact Code.defines_blockEnding (Within.refl.append_right _) _ List.prefix_rfl
  · exact Code.defines_blockEnding (Within.refl.append_right _) _ List.prefix_rfl

theorem defines_caseCode
    (placement : Placement)
    {id : DeclId}
    {body : InterfaceBody}
    (hbody : (s.decl id).body = .interface body)
    (c : SubType) :
    Defines (typeIdent c.name) (classBody s placement (.case id c))
      (caseCode s placement id body c) := by
  simp only [classBody, caseCode, hbody]
  refine Code.Has.append_right ?_ _
  exact Code.defines_blockEnding (Within.refl.append_right _) _ List.prefix_rfl

/-- The class of a type is in the code of its declaration. -/
theorem defines_declCode
    (placement : Placement)
    {x : Site}
    (hx : x ∈ sites s)
    (hservice : ∀ endpoints, (s.decl x.place).body ≠ .service endpoints) :
    Defines (x.ident .javascript s) (classBody s placement x) (declCode s placement x.place) := by
  cases x with
  | decl id =>
      have hclass : ∀ body, Defines (Site.ident .javascript s (.decl id)) body
          (classCode s id body) := defines_classCode s id
      simp only [Site.place] at hservice ⊢
      cases hbody : (s.decl id).body with
      | type fields =>
          simp only [declCode, classBody, hbody]
          exact (hclass _).append_right _
      | tuple fields =>
          simp only [declCode, classBody, hbody]
          exact (hclass _).append_right _
      | interface body =>
          simp only [declCode, classBody, hbody]
          exact ((hclass _).append_left _).append_right _
      | enum type members =>
          simp only [declCode, classBody, hbody]
          exact ((hclass _).append_left _).append_right _
      | service endpoints =>
          exact absurd hbody (hservice endpoints)
  | case id c =>
      obtain ⟨-, hc⟩ := (mem_sites_case id c).mp hx
      obtain ⟨body, hbody, hmem⟩ := exists_body_of_case hc
      have hclass := defines_caseCode s placement hbody c
      simp only [declCode, Site.place, hbody]
      exact ((hclass.flatMap hmem).append_right _).append_right _

variable {s}

theorem prints_decodeMember
    (home : Nat)
    {f : Member}
    {m : Mention}
    (hm : m ∈ mentions 0 f.field.type) :
    Prints (classRef s home m.decl) (decodeMember s home f) := by
  have hassign : ∀ key, Prints (classRef s home m.decl)
      (Code.line s!"{localName f} = {decodeExpr s home key 0 (localName f) f.field.type};") :=
    fun key => Code.prints_line (((within_decodeExpr s home key _ hm).append_right _).append_left _)
  unfold decodeMember
  refine Code.Has.append_right ?_ _
  split
  · exact (hassign _).twoBlocks _ _ _
  · exact (hassign _).append_right _

theorem prints_objectMembers
    (placement : Placement)
    (home : Nat)
    (name : String)
    (tag : Option TagValue)
    {fields : List Field}
    {f : Field}
    (hf : f ∈ fields)
    {m : Mention}
    (hm : m ∈ mentions 0 f.type) :
    Prints (classRef s home m.decl) (objectMembers s placement home name tag fields) := by
  obtain ⟨member, hmember, rfl⟩ := Emit.exists_member .javascript .lowerSnake hf
  have hread : Prints (classRef s home m.decl)
      ((properties fields).flatMap (decodeMember s home)) :=
    (prints_decodeMember home hm).flatMap hmember
  unfold objectMembers
  refine Code.Has.append_left (Code.Has.append_left (Code.Has.append_left
    (Code.Has.append_right ?_ _) _) _) _
  exact ((hread.append_right _).append_left _).block _

theorem prints_decodeItem
    (home : Nat)
    {f : Member}
    (index : Nat)
    {m : Mention}
    (hm : m ∈ mentions 0 f.field.type) :
    Prints (classRef s home m.decl) (decodeItem s home f index) := by
  unfold decodeItem
  refine Code.Has.append_right (Code.prints_line ?_) _
  exact ((within_decodeExpr s home _ _ hm).append_right _).append_left _

theorem prints_tupleMembers
    (home : Nat)
    (name : String)
    {fields : List Field}
    {f : Field}
    (hf : f ∈ fields)
    {m : Mention}
    (hm : m ∈ mentions 0 f.type) :
    Prints (classRef s home m.decl) (tupleMembers s home name fields) := by
  obtain ⟨member, hmember, rfl⟩ := Emit.exists_member .javascript .lowerSnake hf
  obtain ⟨index, hindex⟩ := List.getElem?_of_mem hmember
  have hitem : (member, index) ∈ (properties fields).zipIdx :=
    List.mk_mem_zipIdx_iff_getElem?.mpr hindex
  have hread : Prints (classRef s home m.decl)
      ((properties fields).zipIdx.flatMap fun item => decodeItem s home item.1 item.2) :=
    Code.Has.flatMap (a := (member, index)) (prints_decodeItem home index hm) hitem
  simp only [tupleMembers]
  refine Code.Has.append_left (Code.Has.append_left (Code.Has.append_left
    (Code.Has.append_right ?_ _) _) _) _
  exact ((hread.append_right _).append_left _).block _

theorem prints_interfaceMembers
    (id : DeclId)
    (name : String)
    {body : InterfaceBody}
    {c : SubType}
    (hc : c ∈ body.subTypes) :
    Prints (classPath s id) (interfaceMembers s id name body) := by
  have hread : Within (classPath s id) s!"return {classPath s id}.{typeIdent c.name}.decode(data);" :=
    (((Within.refl.append_right _).append_left _).append_left _).append_left _
  have hdecode : Prints (classPath s id) (decodeInterface s id body) := by
    unfold decodeInterface
    split
    · refine Code.Has.append_right ((Code.Has.append_left ?_ _).block _) _
      refine Code.Has.append_left (Code.Has.flatMap ?_ hc) _
      exact (Code.prints_line (hread.append_right _)).append_right _
    · refine Code.Has.append_left (Code.Has.flatMap ?_ hc) _
      exact ((Code.prints_line hread).block _).append_left _
  unfold interfaceMembers
  exact (hdecode.append_right _).block _

/-- What a class names is printed in it. -/
theorem prints_classBody
    (placement : Placement)
    {x : Site}
    {m : Mention}
    (hm : m ∈ references s x) :
    Prints (classRef s x.place.package m.decl) (classBody s placement x) := by
  rcases List.mem_append.mp hm with hfield | hcase
  · obtain ⟨f, hf, hmention⟩ := List.mem_flatMap.mp hfield
    cases x with
    | decl id =>
        cases hbody : (s.decl id).body with
        | type fields =>
            simp only [Site.fields, hbody] at hf
            simp only [classBody, Site.place, hbody]
            exact prints_objectMembers placement _ _ none hf hmention
        | tuple fields =>
            simp only [Site.fields, hbody] at hf
            simp only [classBody, Site.place, hbody]
            exact prints_tupleMembers _ _ hf hmention
        | interface | enum | service =>
            simp [Site.fields, hbody] at hf
    | case id c =>
        cases hbody : (s.decl id).body with
        | interface body =>
            simp only [Site.fields, hbody] at hf
            simp only [classBody, Site.place, hbody]
            exact prints_objectMembers placement _ _ _ hf hmention
        | type | tuple | enum | service =>
            simp [Site.fields, hbody] at hf
  · cases x with
    | decl id =>
        obtain ⟨c, hc, rfl⟩ := List.mem_map.mp hcase
        obtain ⟨body, hbody, hmem⟩ := exists_body_of_case hc
        simp only [classBody, classRef, Site.place, hbody, if_true]
        exact prints_interfaceMembers id _ hmem
    | case id c =>
        cases hcase

/-- A reference is printed in the class of a type, which is in the code of its declaration. -/
structure Shows
    (s : Schema)
    (placement : Placement)
    (x : Site)
    (id : DeclId) : Prop where
  defined : Defines (x.ident .javascript s) (classBody s placement x)
    (declCode s placement x.place)
  printed : Prints (classRef s x.place.package id) (classBody s placement x)

theorem shows_of_mem_references
    (placement : Placement)
    {x : Site}
    (hx : x ∈ sites s)
    {m : Mention}
    (hm : m ∈ references s x) :
    Shows s placement x m.decl := by
  refine ⟨defines_declCode s placement hx fun endpoints hbody => ?_, prints_classBody placement hm⟩
  cases x with
  | decl id => simp [references, Site.fields, Schema.cases, show (s.decl id).body = _ from hbody] at hm
  | case id c => simp [references, Site.fields, show (s.decl id).body = _ from hbody] at hm

end Class

section Named

variable {s t : Schema}
variable {home : Nat}

theorem decoders_eq_of_names
    (name : String)
    (depth : Nat)
    {items : List TypeRef}
    (h : ∀ item ∈ items, decodeExpr s home name (depth + 1) (parameter depth) item =
      decodeExpr t home name (depth + 1) (parameter depth) item) :
    decoders s home name depth items = decoders t home name depth items := by
  induction items with
  | nil =>
      rfl
  | cons first rest ih =>
      rw [decoders_cons, decoders_cons, h first List.mem_cons_self,
        ih fun item hitem => h item (List.mem_cons_of_mem first hitem)]

/-- An expression that reads a type names nothing but its mentions. -/
theorem decodeExpr_eq_of_names
    (name : String)
    {depth : Nat}
    (value : String)
    {type : TypeRef}
    (h : ∀ m ∈ mentions depth type, classRef s home m.decl = classRef t home m.decl) :
    decodeExpr s home name depth value type = decodeExpr t home name depth value type := by
  induction type using TypeRef.memberInduction generalizing depth value with
  | primitive p =>
      rw [decodeExpr_primitive, decodeExpr_primitive]
  | decl id =>
      rw [decodeExpr_decl, decodeExpr_decl, h ⟨id, depth⟩ (List.mem_singleton_self _)]
  | array item ih =>
      rw [decodeExpr_array, decodeExpr_array, ih (parameter depth) h]
  | map key item ihKey ih =>
      rw [decodeExpr_map, decodeExpr_map, ih (parameter depth) h]
  | tuple items ih =>
      rw [decodeExpr_tuple, decodeExpr_tuple, decoders_eq_of_names name depth fun item hitem => ih item hitem _ fun m hm =>
        h m ((mem_itemMentions _ _ _).mpr ⟨item, hitem, hm⟩)]

variable {fields : List Field}
variable (h : ∀ f ∈ fields, ∀ m ∈ mentions 0 f.type, classRef s home m.decl = classRef t home m.decl)

include h

theorem objectMembers_eq_of_names
    (placement : Placement)
    (name : String)
    (tag : Option TagValue) :
    objectMembers s placement home name tag fields =
      objectMembers t placement home name tag fields := by
  have hread : (properties fields).flatMap (decodeMember s home) =
      (properties fields).flatMap (decodeMember t home) := by
    refine List.flatMap_congr fun m hm => ?_
    simp only [decodeMember, decodeExpr_eq_of_names _ _ (h m.field (Emit.field_mem_of_mem_members hm))]
  simp only [objectMembers, hread]

theorem tupleMembers_eq_of_names
    (name : String) :
    tupleMembers s home name fields = tupleMembers t home name fields := by
  have hread : ∀ item ∈ (properties fields).zipIdx,
      decodeItem s home item.1 item.2 = decodeItem t home item.1 item.2 := by
    intro item hitem
    have hfield := Emit.field_mem_of_mem_members (List.fst_mem_of_mem_zipIdx hitem)
    simp only [decodeItem, decodeExpr_eq_of_names _ _ (h item.1.field hfield)]
  simp only [tupleMembers, List.flatMap_congr hread]

end Named

theorem decodeInterface_eq_of_names
    {s t : Schema}
    {id : DeclId}
    {body : InterfaceBody}
    (hdisplay : s.displayName id = t.displayName id)
    (h : ∀ c ∈ body.subTypes, classPath s id = classPath t id) :
    decodeInterface s id body = decodeInterface t id body := by
  cases hcases : body.subTypes with
  | nil => simp only [decodeInterface, hcases, hdisplay, List.flatMap_nil]
  | cons c cs =>
      have hpath := h c (hcases ▸ List.mem_cons_self)
      simp only [decodeInterface, hdisplay, hpath]

/-- Nothing else is named in a class: it is the same where its references are named alike. -/
theorem classBody_eq_of_names
    {s t : Schema}
    (placement : Placement)
    {x : Site}
    (hdecl : s.decl x.place = t.decl x.place)
    (hdisplay : s.displayName x.place = t.displayName x.place)
    (h : ∀ m ∈ references s x,
      classRef s x.place.package m.decl = classRef t x.place.package m.decl) :
    classBody s placement x = classBody t placement x := by
  have hfields : ∀ f ∈ x.fields s, ∀ m ∈ mentions 0 f.type,
      classRef s x.place.package m.decl = classRef t x.place.package m.decl :=
    fun f hf m hm => h m (List.mem_append_left _ (List.mem_flatMap.mpr ⟨f, hf, hm⟩))
  cases x with
  | decl id =>
      simp only [Site.place] at hdecl hdisplay hfields
      simp only [classBody, ← hdecl]
      cases hbody : (s.decl id).body with
      | type fields =>
          simp only [Site.fields, hbody] at hfields
          exact objectMembers_eq_of_names hfields placement _ none
      | tuple fields =>
          simp only [Site.fields, hbody] at hfields
          exact tupleMembers_eq_of_names hfields _
      | interface body =>
          simp only [interfaceMembers]
          rw [decodeInterface_eq_of_names hdisplay fun c hc => ?_]
          have hself := h ⟨id, 0⟩ (List.mem_append_right _
            (List.mem_map.mpr ⟨c, by simpa [Schema.cases, hbody] using hc, rfl⟩))
          simpa [classRef, Site.place] using hself
      | enum | service =>
          rfl
  | case id c =>
      simp only [Site.place] at hdecl hfields
      simp only [classBody, ← hdecl]
      cases hbody : (s.decl id).body with
      | interface body =>
          simp only [Site.fields, hbody] at hfields
          exact objectMembers_eq_of_names hfields placement _ _
      | type | tuple | enum | service =>
          rfl

end JavaScript
end Target
end Schemata
