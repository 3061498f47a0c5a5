import Schemata.Proofs.Emit.Code
import Schemata.Proofs.Target.Site
import Schemata.Target.CSharp

/-!
# C#: what a class names

A class names the declarations that the types of its fields mention.  The
converters of tuples and of untagged interfaces name the class that they are
for, and a service names what travels through it.

The list is the right one: what is listed is printed inside the class, and
nothing else is, since a class does not change where the listed declarations
do not change.

**Results.**
* `shows_of_mem_references`: what is listed is printed in the class of the
  type, which is in the code of its declaration.
* `classBody_eq_of_agree`: nothing else is named in a class.
-/

namespace Schemata
namespace Target
namespace CSharp

open Text (Within)
open Code (Prints Defines)
open Emit (Member)

section Printed

variable (s : Schema)
variable (home : Nat)

theorem mem_typeTexts
    {items : List TypeRef}
    {item : TypeRef}
    (h : item ∈ items) :
    typeText s home item ∈ typeTexts s home items := by
  induction items with
  | nil =>
      cases h
  | cons first rest ih =>
      rw [typeTexts]
      rcases List.mem_cons.mp h with rfl | h
      · exact List.mem_cons_self
      · exact List.mem_cons_of_mem _ (ih h)

/-- A type prints the name of each declaration that it mentions. -/
theorem within_typeText
    {type : TypeRef}
    {id : DeclId}
    (h : id ∈ type.mentioned) :
    Within (typeName s home id) (typeText s home type) := by
  induction type using TypeRef.memberInduction with
  | primitive p =>
      simp [TypeRef.mentioned, TypeRef.parts, TypeRef.decl?] at h
  | decl id' =>
      rw [show id = id' by simpa [TypeRef.mentioned, TypeRef.parts, TypeRef.decl?] using h]
      exact Within.refl
  | array item ih =>
      have hitem := ih ((TypeRef.mem_mentioned_array _ _).mp h)
      rw [typeText]
      exact (hitem.append_right _).append_left _
  | map key value ihKey ihValue =>
      rw [typeText]
      rcases (TypeRef.mem_mentioned_map _ _ _).mp h with h | h
      · exact ((((ihKey h).append_right _).append_left _).append_left _).append_left _
      · exact ((ihValue h).append_right _).append_left _
  | tuple items ih =>
      obtain ⟨item, hitem, h⟩ := (TypeRef.mem_mentioned_tuple _ _).mp h
      rw [typeText]
      exact (((ih item hitem h).intercalate ", " (mem_typeTexts s home hitem)).append_right
        _).append_left _

variable {s}
variable {home}

theorem prints_property
    {f : Member}
    {id : DeclId}
    (h : id ∈ f.field.type.mentioned) :
    Prints (typeName s home id) (property s home f) := by
  have htype : Within (typeName s home id) (propertyType s home f.field) := by
    unfold propertyType
    split
    · exact (within_typeText s home h).append_left _
    · exact within_typeText s home h
  unfold property
  refine Code.Has.append_left (Code.Has.append_right (Code.prints_header ?_ _) _) _
  exact ((htype.append_right _).append_left _).append_left _

theorem prints_classMembers
    (display name baseCall : String)
    {fields : List Field}
    {f : Field}
    (hf : f ∈ fields)
    {id : DeclId}
    (h : id ∈ f.type.mentioned) :
    Prints (typeName s home id) (classMembers s home display name baseCall fields) := by
  obtain ⟨member, hmember, rfl⟩ := Emit.exists_member .csharp .lowerCamel hf
  have hproperty : Prints (typeName s home id) ((properties fields).flatMap (property s home)) :=
    (prints_property h).flatMap hmember
  unfold classMembers
  simp only [List.append_assoc]
  exact hproperty.append_left _

theorem prints_tupleConverter
    (path : String)
    (fields : List Field) :
    Prints path (tupleConverter s home path fields) := by
  have hpath : Within path s!"return objectType == typeof({path});" :=
    (Within.refl.append_right _).append_left _
  unfold tupleConverter
  simp only [List.append_assoc]
  exact (((Code.prints_line hpath).block _).append_left _).block _

theorem prints_untaggedConverter
    (path : String)
    {body : InterfaceBody}
    {c : SubType}
    (hc : c ∈ body.subTypes) :
    Prints path (untaggedConverter path body) := by
  have hcase : Prints path (readCase path body c) := by
    unfold readCase
    refine Code.Has.append_right (Code.Has.block (Code.Has.append_right ?_ _) _) _
    refine Code.Has.twoBlocks (Code.prints_line ?_) _ _ _
    exact ((((Within.refl.append_right _).append_left _).append_left _).append_left _).append_right _
  unfold untaggedConverter
  refine Code.Has.block (Code.Has.append_right (Code.Has.block ?_ _) _) _
  exact ((hcase.flatMap hc).append_right _ |>.append_left _).append_left _

theorem within_argumentType
    {c : Channel}
    {id : DeclId}
    (h : id ∈ c.type.mentioned) :
    Within (typeName s home id) (argumentType s home c) := by
  unfold argumentType
  split
  · exact ((within_typeText s home h).append_right _).append_left _
  · exact within_typeText s home h

theorem within_responseType
    {c : Channel}
    {id : DeclId}
    (h : id ∈ c.type.mentioned) :
    Within (typeName s home id) (responseType s home (some c)) := by
  unfold responseType
  dsimp only
  split
  · exact ((within_typeText s home h).append_right _).append_left _
  · exact ((within_typeText s home h).append_right _).append_left _

theorem prints_endpointCode
    (method : String)
    {e : Endpoint}
    {c : Channel}
    (hc : c ∈ e.channels)
    {id : DeclId}
    (h : id ∈ c.type.mentioned) :
    Prints (typeName s home id) (endpointCode s home e method) := by
  unfold endpointCode
  refine Code.Has.append_right (Code.prints_line ?_) _
  rcases List.mem_append.mp hc with hargument | hresponse
  · obtain ⟨a, ha, rfl⟩ := List.mem_map.mp hargument
    obtain ⟨ident, hident⟩ :=
      Emit.exists_mem_zip_spellAll .csharp .lowerCamel (fun a : Argument => a.name) ha
    have htext : Within (typeName s home id) s!"{argumentType s home a.channel} {ident}" :=
      ((within_argumentType h).append_left _).append_left _
    refine Within.append_left (Within.append_right (htext.intercalate ", " ?_) _) _
    exact List.mem_map.mpr ⟨(a, ident), hident, rfl⟩
  · rw [Option.mem_toList.mp hresponse]
    exact ((((within_responseType h).append_left _).append_left _).append_left _
      |>.append_left _).append_left _

theorem prints_serviceMembers
    {endpoints : List Endpoint}
    {e : Endpoint}
    (he : e ∈ endpoints)
    {c : Channel}
    (hc : c ∈ e.channels)
    {id : DeclId}
    (h : id ∈ c.type.mentioned) :
    Prints (typeName s home id) (serviceMembers s home endpoints) := by
  obtain ⟨method, hmethod⟩ :=
    Emit.exists_mem_zip_spellAll .csharp .upperCamel (fun e : Endpoint => e.name) he
  unfold serviceMembers
  refine Code.Has.flatMap (a := (e, method)) ?_ hmethod
  exact (prints_endpointCode method hc h).append_right _

end Printed

section Class

variable (s : Schema)

/-- The inside of the class of a type, without the classes inside it. -/
def classBody
    (placement : Placement) :
    Site → Code
  | .decl id =>
      let d := s.decl id
      let name := typeIdent d.name
      let path := classPath s id
      match d.body with
      | .type fields => classMembers s id.package d.name name "" fields
      | .tuple fields =>
          classMembers s id.package d.name name "" fields
            ++ Code.blank
            ++ tupleConverter s id.package path fields
      | .interface body =>
          match body.strategy with
          | .tagged tag => tagMembers placement name tag
          | .untagged => untaggedConverter path body
      | .enum _ _ => []
      | .service endpoints => serviceMembers s id.package endpoints
  | .case id c =>
      match (s.decl id).body with
      | .interface body =>
          let baseCall :=
            match body.strategy with
            | .tagged _ => s!" : base({Text.literal c.literal})"
            | .untagged => ""
          classMembers s id.package c.name (typeIdent c.name) baseCall (body.fieldsOf c)
      | _ => []

/-- What is named inside the class of a type, apart from its fields: the class of a tuple, the class
of an interface once for each case that it tells apart by keys, and what travels through a
service. -/
def ownReferences
    (id : DeclId) :
    List DeclId :=
  match (s.decl id).body with
  | .tuple _ => [id]
  | .interface body =>
      if body.strategy = .untagged then body.subTypes.map fun _ => id else []
  | .service endpoints =>
      endpoints.flatMap fun e => e.channels.flatMap fun c => c.type.mentioned
  | .type _ | .enum _ _ => []

/-- What is named inside the class of a type. -/
def references
    (x : Site) :
    List DeclId :=
  (x.fields s).flatMap (fun f => f.type.mentioned) ++
    match x with
    | .decl id => ownReferences s id
    | .case _ _ => []

/-- How the class of a type begins, up to its identifier. -/
def opening : Site → String
  | .decl id =>
      match (s.decl id).body with
      | .type _ | .tuple _ => "public class "
      | .interface _ => "public abstract class "
      | .enum _ _ => "public enum "
      | .service _ => "public interface "
  | .case _ _ => "public class "

/-- How the class of a type begins. -/
def heading
    (x : Site) :
    String :=
  opening s x ++ x.ident .csharp s

theorem defines_caseClass
    (placement : Placement)
    {id : DeclId}
    {body : InterfaceBody}
    (hbody : (s.decl id).body = .interface body)
    (name : String)
    (c : SubType) :
    Defines (typeIdent c.name) (classBody s placement (.case id c))
      (caseClass s id.package name body c) := by
  simp only [classBody, caseClass, hbody]
  refine Code.Has.append_right ?_ _
  exact Code.defines_blockEnding (((Within.refl.append_right _).append_left _).append_left _) _
    List.prefix_rfl

variable {s}

/-- The code of a declaration other than an enum is its class.  The classes of its cases come after
its own members, and those of the declarations inside it at the end. -/
theorem exists_declCode
    (placement : Placement)
    {id : DeclId}
    (henum : ∀ type members, (s.decl id).body ≠ .enum type members)
    (made : List Code) :
    ∃ before classes, declCode s placement id made =
        before ++ Code.block (heading s (.decl id))
          (classBody s placement (.decl id) ++ classes ++ made.flatMap (Code.blank ++ ·)) ∧
      ∀ body, (s.decl id).body = .interface body →
        classes = body.subTypes.flatMap
          (caseClass s id.package (typeIdent (s.decl id).name) body) := by
  have hname : ∀ text, opening s (.decl id) = text →
      heading s (.decl id) = text ++ typeIdent (s.decl id).name := by
    rintro text rfl
    rfl
  cases hbody : (s.decl id).body with
  | type fields =>
      refine ⟨Code.doc "///" (s.decl id).doc ++ objectMark, [], ?_, by simp⟩
      rw [hname "public class " (by rw [opening, hbody])]
      simp only [declCode, classBody, hbody, List.append_nil, List.append_assoc]
      rfl
  | tuple fields =>
      refine ⟨Code.doc "///" (s.decl id).doc ++ converterMark (classPath s id), [], ?_, by simp⟩
      rw [hname "public class " (by rw [opening, hbody])]
      simp only [declCode, classBody, hbody, List.append_nil, List.append_assoc]
      rfl
  | interface body =>
      rw [hname "public abstract class " (by rw [opening, hbody])]
      cases hstrategy : body.strategy
      all_goals
        simp only [declCode, classBody, hbody, hstrategy]
        refine ⟨_, _, (List.append_assoc _ _ _).symm, ?_⟩
        rintro _ ⟨⟩
        rfl
  | enum type members =>
      exact absurd hbody (henum type members)
  | service endpoints =>
      refine ⟨Code.doc "///" (s.decl id).doc, [], ?_, by simp⟩
      rw [hname "public interface " (by rw [opening, hbody])]
      simp only [declCode, classBody, hbody, List.append_nil]
      rfl

variable (s)

/-- The class of a type is in the code of its declaration. -/
theorem defines_declCode
    (placement : Placement)
    (inner : List Code)
    {x : Site}
    (hx : x ∈ sites s)
    (henum : ∀ type members, (s.decl x.place).body ≠ .enum type members) :
    Defines (x.ident .csharp s) (classBody s placement x)
      (declCode s placement x.place inner) := by
  obtain ⟨before, classes, hcode, hclasses⟩ := exists_declCode placement henum inner
  rw [hcode]
  refine Code.Has.append_right ?_ before
  cases x with
  | decl id =>
      rw [List.append_assoc]
      exact Code.defines_blockEnding (Within.refl.append_right _) _ (List.prefix_append _ _)
  | case id c =>
      obtain ⟨body, hbody, hmem⟩ := exists_body_of_case ((mem_sites_case id c).mp hx).2
      have hclass := defines_caseClass s placement hbody (typeIdent (s.decl id).name) c
      rw [hclasses body hbody]
      exact (((hclass.flatMap hmem).append_right _).append_left _).block _

variable {s}

theorem typeName_self
    (id : DeclId) :
    typeName s id.package id = classPath s id :=
  if_pos rfl

theorem prints_fields
    (placement : Placement)
    {x : Site}
    {f : Field}
    (hf : f ∈ x.fields s)
    {id : DeclId}
    (h : id ∈ f.type.mentioned) :
    Prints (typeName s x.place.package id) (classBody s placement x) := by
  cases x with
  | decl owner =>
      cases hbody : (s.decl owner).body with
      | type fields =>
          simp only [Site.fields, hbody] at hf
          simp only [classBody, Site.place, hbody]
          exact prints_classMembers _ _ _ hf h
      | tuple fields =>
          simp only [Site.fields, hbody] at hf
          simp only [classBody, Site.place, hbody, List.append_assoc]
          exact (prints_classMembers _ _ _ hf h).append_left _
      | interface | enum | service =>
          simp [Site.fields, hbody] at hf
  | case owner c =>
      cases hbody : (s.decl owner).body with
      | interface body =>
          simp only [Site.fields, hbody] at hf
          simp only [classBody, Site.place, hbody]
          exact prints_classMembers _ _ _ hf h
      | type | tuple | enum | service =>
          simp [Site.fields, hbody] at hf

theorem prints_ownReferences
    (placement : Placement)
    {owner id : DeclId}
    (h : id ∈ ownReferences s owner) :
    Prints (typeName s owner.package id) (classBody s placement (.decl owner)) := by
  cases hbody : (s.decl owner).body with
  | tuple fields =>
      simp only [ownReferences, hbody, List.mem_singleton] at h
      subst h
      simp only [classBody, hbody, typeName_self]
      exact (prints_tupleConverter _ fields).append_right _
  | interface body =>
      cases hstrategy : body.strategy with
      | tagged tag =>
          simp [ownReferences, hbody, hstrategy] at h
      | untagged =>
          simp only [ownReferences, hbody, hstrategy, if_true] at h
          obtain ⟨c, hc, rfl⟩ := List.mem_map.mp h
          simp only [classBody, hbody, hstrategy, typeName_self]
          exact prints_untaggedConverter _ hc
  | service endpoints =>
      simp only [ownReferences, hbody] at h
      obtain ⟨e, he, h⟩ := List.mem_flatMap.mp h
      obtain ⟨c, hc, h⟩ := List.mem_flatMap.mp h
      simp only [classBody, hbody]
      exact prints_serviceMembers he hc h
  | type | enum =>
      simp [ownReferences, hbody] at h

/-- What a class names is printed in it. -/
theorem prints_classBody
    (placement : Placement)
    {x : Site}
    {id : DeclId}
    (h : id ∈ references s x) :
    Prints (typeName s x.place.package id) (classBody s placement x) := by
  rcases List.mem_append.mp h with hfield | hown
  · obtain ⟨f, hf, h⟩ := List.mem_flatMap.mp hfield
    exact prints_fields placement hf h
  · cases x with
    | decl owner => exact prints_ownReferences placement hown
    | case owner c => cases hown

/-- A reference is printed in the class of a type, which is in the code of its declaration. -/
structure Shows
    (s : Schema)
    (placement : Placement)
    (x : Site)
    (id : DeclId) : Prop where
  defined : ∀ inner, Defines (x.ident .csharp s) (classBody s placement x)
    (declCode s placement x.place inner)
  printed : Prints (typeName s x.place.package id) (classBody s placement x)

theorem shows_of_mem_references
    (placement : Placement)
    {x : Site}
    (hx : x ∈ sites s)
    {id : DeclId}
    (hid : id ∈ references s x) :
    Shows s placement x id := by
  refine ⟨fun inner => defines_declCode s placement inner hx fun type members hbody => ?_,
    prints_classBody placement hid⟩
  cases x with
  | decl owner =>
      simp [references, Site.fields, ownReferences, show (s.decl owner).body = _ from hbody] at hid
  | case owner c =>
      simp [references, Site.fields, show (s.decl owner).body = _ from hbody] at hid

end Class

section Named

variable {s t : Schema}
variable {home : Nat}

theorem typeTexts_eq_of_names
    {items : List TypeRef}
    (h : ∀ item ∈ items, typeText s home item = typeText t home item) :
    typeTexts s home items = typeTexts t home items := by
  induction items with
  | nil =>
      rfl
  | cons first rest ih =>
      rw [typeTexts, typeTexts, h first List.mem_cons_self,
        ih fun item hitem => h item (List.mem_cons_of_mem first hitem)]

/-- A type names nothing but what it mentions. -/
theorem typeText_eq_of_names
    {type : TypeRef}
    (h : ∀ id ∈ type.mentioned, typeName s home id = typeName t home id) :
    typeText s home type = typeText t home type := by
  induction type using TypeRef.memberInduction with
  | primitive p =>
      rw [typeText, typeText]
  | decl id =>
      rw [typeText, typeText, h id (by simp [TypeRef.mentioned, TypeRef.parts, TypeRef.decl?])]
  | array item ih =>
      rw [typeText, typeText, ih fun id hid => h id ((TypeRef.mem_mentioned_array _ _).mpr hid)]
  | map key value ihKey ihValue =>
      rw [typeText, typeText,
        ihKey fun id hid => h id ((TypeRef.mem_mentioned_map _ _ _).mpr (.inl hid)),
        ihValue fun id hid => h id ((TypeRef.mem_mentioned_map _ _ _).mpr (.inr hid))]
  | tuple items ih =>
      rw [typeText, typeText, typeTexts_eq_of_names fun item hitem => ih item hitem fun id hid =>
        h id ((TypeRef.mem_mentioned_tuple _ _).mpr ⟨item, hitem, hid⟩)]

/-- Two schemas agree on a declaration: on its name in the code of a package, and on its body. -/
def Agree
    (s t : Schema)
    (home : Nat)
    (id : DeclId) : Prop :=
  typeName s home id = typeName t home id ∧ (s.decl id).body = (t.decl id).body

theorem shape_eq_of_agree
    {type : TypeRef}
    (h : ∀ id ∈ type.mentioned, Agree s t home id) :
    shape s type = shape t type := by
  cases type with
  | decl id =>
      have hbody := (h id (by simp [TypeRef.mentioned, TypeRef.parts, TypeRef.decl?])).2
      simp only [shape, hbody]
  | primitive p =>
      cases p <;> rfl
  | array | map | tuple =>
      rfl

theorem propertyType_eq_of_agree
    {f : Field}
    (h : ∀ id ∈ f.type.mentioned, Agree s t home id) :
    propertyType s home f = propertyType t home f := by
  simp only [propertyType, shape_eq_of_agree h, typeText_eq_of_names fun id hid => (h id hid).1]

variable {ms : List Member}
variable (h : ∀ m ∈ ms, ∀ id ∈ m.field.type.mentioned, Agree s t home id)

include h

theorem parameters_eq_of_agree :
    parameters s home ms = parameters t home ms := by
  induction ms with
  | nil =>
      rfl
  | cons m rest ih =>
      rw [parameters, parameters, ih fun n hn => h n (List.mem_cons_of_mem m hn),
        propertyType_eq_of_agree (h m List.mem_cons_self)]

end Named

section Agree

variable {s t : Schema}
variable {home : Nat}
variable {fields : List Field}
variable (h : ∀ f ∈ fields, ∀ id ∈ f.type.mentioned, Agree s t home id)

include h

theorem classMembers_eq_of_agree
    (display name baseCall : String) :
    classMembers s home display name baseCall fields =
      classMembers t home display name baseCall fields := by
  have hms : ∀ m ∈ properties fields, ∀ id ∈ m.field.type.mentioned, Agree s t home id :=
    fun m hm => h m.field (Emit.field_mem_of_mem_members hm)
  have hproperties : (properties fields).flatMap (property s home) =
      (properties fields).flatMap (property t home) :=
    List.flatMap_congr fun m hm => by
      simp only [property, propertyType_eq_of_agree (hms m hm)]
  have hequals : (properties fields).flatMap (equalMember s) =
      (properties fields).flatMap (equalMember t) :=
    List.flatMap_congr fun m hm => by
      simp only [equalMember, equalCondition, shape_eq_of_agree (hms m hm)]
  have hhash : ((properties fields).map fun m => s!"result = result * 31 + {hashTerm s m};") =
      (properties fields).map fun m => s!"result = result * 31 + {hashTerm t m};" :=
    List.map_congr_left fun m hm => by
      simp only [hashTerm, shape_eq_of_agree (hms m hm)]
  simp only [classMembers, constructor, equalsMethod, hashMethod, hproperties, hequals, hhash,
    parameters_eq_of_agree hms]

theorem tupleConverter_eq_of_agree
    (path : String) :
    tupleConverter s home path fields = tupleConverter t home path fields := by
  have hread : ∀ item ∈ (properties fields).zipIdx,
      readItem s home item.1 item.2 = readItem t home item.1 item.2 := by
    intro item hitem
    have hfield := Emit.field_mem_of_mem_members (List.fst_mem_of_mem_zipIdx hitem)
    simp only [readItem, propertyType_eq_of_agree (h item.1.field hfield)]
  simp only [tupleConverter, List.flatMap_congr hread]

end Agree

theorem serviceMembers_eq_of_names
    {s t : Schema}
    {home : Nat}
    {endpoints : List Endpoint}
    (h : ∀ e ∈ endpoints, ∀ c ∈ e.channels, ∀ id ∈ c.type.mentioned,
      typeName s home id = typeName t home id) :
    serviceMembers s home endpoints = serviceMembers t home endpoints := by
  refine List.flatMap_congr ?_
  rintro ⟨e, method⟩ he
  have hchannel := h e (List.of_mem_zip he).1
  have hargument : ∀ idents : List String, ∀ x ∈ e.arguments.zip idents,
      s!"{argumentType s home x.1.channel} {x.2}" =
        s!"{argumentType t home x.1.channel} {x.2}" := by
    intro idents x hx
    have hmem : x.1.channel ∈ e.channels :=
      List.mem_append_left _ (List.mem_map_of_mem (List.of_mem_zip hx).1)
    simp only [argumentType, typeText_eq_of_names (hchannel _ hmem)]
  have hresponse : responseType s home e.response = responseType t home e.response := by
    cases hr : e.response with
    | none => rfl
    | some c =>
        have hmem : c ∈ e.channels :=
          List.mem_append_right _ (Option.mem_toList.mpr hr)
        simp only [responseType, typeText_eq_of_names (hchannel c hmem)]
  simp only [endpointCode, hresponse, List.map_congr_left (hargument _)]

/-- Nothing else is named in a class: it is the same where schemas agree on its references. -/
theorem classBody_eq_of_agree
    {s t : Schema}
    (placement : Placement)
    {x : Site}
    (hdecl : s.decl x.place = t.decl x.place)
    (h : ∀ id ∈ references s x, Agree s t x.place.package id) :
    classBody s placement x = classBody t placement x := by
  have hfields : ∀ f ∈ x.fields s, ∀ id ∈ f.type.mentioned, Agree s t x.place.package id :=
    fun f hf id hid => h id (List.mem_append_left _ (List.mem_flatMap.mpr ⟨f, hf, hid⟩))
  cases x with
  | decl id =>
      have hown : ∀ i ∈ ownReferences s id, Agree s t id.package i :=
        fun i hi => h i (List.mem_append_right _ hi)
      simp only [Site.place] at hdecl hfields
      simp only [classBody, ← hdecl]
      cases hbody : (s.decl id).body with
      | type fields =>
          simp only [Site.fields, hbody] at hfields
          exact classMembers_eq_of_agree hfields _ _ _
      | tuple fields =>
          simp only [Site.fields, hbody] at hfields
          have hpath : classPath s id = classPath t id := by
            simpa [typeName_self] using (hown id (by simp [ownReferences, hbody])).1
          simp only [classMembers_eq_of_agree hfields, tupleConverter_eq_of_agree hfields, hpath]
      | interface body =>
          cases hstrategy : body.strategy with
          | tagged tag => simp only [hstrategy]
          | untagged =>
              cases hcases : body.subTypes with
              | nil => simp only [untaggedConverter, hcases, List.flatMap_nil]
              | cons c cs =>
                  have hpath : classPath s id = classPath t id := by
                    simpa [typeName_self] using
                      (hown id (by simp [ownReferences, hbody, hstrategy, hcases])).1
                  simp only [hpath]
      | enum => rfl
      | service endpoints =>
          refine serviceMembers_eq_of_names fun e he c hc i hi => (hown i ?_).1
          simp only [ownReferences, hbody]
          exact List.mem_flatMap.mpr ⟨e, he, List.mem_flatMap.mpr ⟨c, hc, hi⟩⟩
  | case id c =>
      simp only [Site.place] at hdecl hfields
      simp only [classBody, ← hdecl]
      cases hbody : (s.decl id).body with
      | interface body =>
          simp only [Site.fields, hbody] at hfields
          exact classMembers_eq_of_agree hfields _ _ _
      | type | tuple | enum | service =>
          rfl

end CSharp
end Target
end Schemata
