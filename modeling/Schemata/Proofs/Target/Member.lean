import Schemata.Proofs.Naming.Capital
import Schemata.Proofs.Target.Capture
import Schemata.Proofs.Target.Identifier

/-!
# Properties and the members beside them

A class with fields has a property for each field, and beside them it has members
of its own that write, compare, hash and show it.  Identifiers of fields are kept
apart from reserved words and from each other, but not from these members.

**Results.**
* `JavaScript.hasMembers_of_record`, `Swift.hasMembers_of_record`,
  `CSharp.hasMembers_of_record`: properties and members are printed in the class.
* `record_members`: which members of a class have the name of a property.
-/

namespace Schemata

namespace Code

/-- Code has a block whose header begins with a text, and which is inside no other part. -/
def Opens
    (header : String)
    (code : Code) : Prop :=
  ∃ before rest body after, code = before ++ block (header ++ rest) body ++ after

namespace Opens

variable {header : String}
variable {code : Code}

theorem block_append
    (header rest : String)
    (body : Code) :
    Opens header (block (header ++ rest) body) :=
  ⟨[], rest, body, [], by rw [List.nil_append, List.append_nil]⟩

theorem block
    (header : String)
    (body : Code) :
    Opens header (block header body) := by
  have h := block_append header "" body
  rwa [String.append_empty] at h

theorem append_left
    (h : Opens header code)
    (after : Code) :
    Opens header (code ++ after) := by
  obtain ⟨before, rest, body, after', rfl⟩ := h
  exact ⟨before, rest, body, after' ++ after, List.append_assoc _ _ _⟩

theorem append_right
    (h : Opens header code)
    (before : Code) :
    Opens header (before ++ code) := by
  obtain ⟨before', rest, body, after, rfl⟩ := h
  exact ⟨before ++ before', rest, body, after, by simp only [List.append_assoc]⟩

theorem flatMap
    {α : Type}
    {f : α → Code}
    {a : α}
    {as : List α}
    (h : Opens header (f a))
    (hmem : a ∈ as) :
    Opens header (as.flatMap f) := by
  obtain ⟨before, after, rfl⟩ := List.append_of_mem hmem
  rw [List.flatMap_append, List.flatMap_cons]
  exact (h.append_left _).append_right _

end Opens

theorem prints_lines
    {text line : String}
    {texts : List String}
    (hmem : line ∈ texts)
    (h : Text.Within text line) :
    Prints text (lines texts) := by
  refine (has_line_lines hmem).trans fun part hpart => ?_
  rw [hpart]
  exact prints_line h

end Code

namespace Target

open Code (Prints Defines Opens)
open Text (Within)

/-- A member that a class has for itself, with the beginning of its header. -/
structure OwnMember where
  name : String
  header : String

/-- The type is a class with fields: that of a type, of a tuple or of a case. -/
def Site.IsRecord
    (s : Schema) :
    Site → Prop
  | .decl id => (s.decl id).body.isStruct = true
  | .case _ _ => True

section Records

variable {s : Schema}
variable {x : Site}

/-- The declaration of a class with fields, or the interface of a case. -/
theorem Site.IsRecord.cases
    (h : x.IsRecord s)
    (hx : x ∈ sites s) :
    (∃ id fields, x = .decl id ∧ (s.decl id).body = .type fields ∧ x.fields s = fields) ∨
      (∃ id fields, x = .decl id ∧ (s.decl id).body = .tuple fields ∧ x.fields s = fields) ∨
      ∃ id c body, x = .case id c ∧ (s.decl id).body = .interface body ∧ c ∈ body.subTypes ∧
        x.fields s = body.fieldsOf c := by
  cases x with
  | decl id =>
      cases hbody : (s.decl id).body with
      | type fields => exact .inl ⟨id, fields, rfl, hbody, by simp only [Site.fields, hbody]⟩
      | tuple fields =>
          exact .inr (.inl ⟨id, fields, rfl, hbody, by simp only [Site.fields, hbody]⟩)
      | interface | enum | service => simp [Site.IsRecord, hbody, DeclBody.isStruct] at h
  | case id c =>
      obtain ⟨body, hbody, hc⟩ := exists_body_of_case ((mem_sites_case id c).mp hx).2
      exact .inr (.inr ⟨id, c, body, rfl, hbody, hc, by simp only [Site.fields, hbody]⟩)

end Records

namespace JavaScript

/-- What a class with fields can do besides holding them. -/
def ownMembers : List OwnMember :=
  [⟨"encode", "encode()"⟩, ⟨"equals", "equals(other)"⟩, ⟨"hashCode", "hashCode()"⟩,
    ⟨"toString", "toString()"⟩]

/-- A class sets its properties and has members of its own. -/
structure HasMembers
    (s : Schema)
    (placement : Placement)
    (x : Site) : Prop where
  defined : Defines (x.ident .javascript s) (classBody s placement x)
    (declCode s placement x.place)
  property : ∀ m ∈ properties (x.fields s),
    Prints s!"this.{m.ident} = {m.ident};" (classBody s placement x)
  own : ∀ member ∈ ownMembers, Opens member.header (classBody s placement x)

theorem prints_constructor
    {ms : List Emit.Member}
    {m : Emit.Member}
    (hm : m ∈ ms) :
    Prints s!"this.{m.ident} = {m.ident};" (constructor (ms.map (·.ident))) := by
  have hmem : s!"this.{m.ident} = {m.ident};" ∈
      (ms.map (·.ident)).map fun x => s!"this.{x} = {x};" :=
    List.mem_map_of_mem (List.mem_map_of_mem hm)
  exact (Code.prints_lines hmem Within.refl).block _

/-- The members of a class with fields, however it is read and written. -/
def recordMembers
    (name : String)
    (ms : List Emit.Member)
    (decode write : Code) :
    Code :=
  constructor (ms.map (·.ident)) ++ Code.blank ++ decode ++ Code.blank
    ++ Code.block "encode()" write ++ valueMembers name ms

theorem exists_classBody
    {s : Schema}
    (placement : Placement)
    {x : Site}
    (hx : x ∈ sites s)
    (hrecord : x.IsRecord s) :
    ∃ name decode write, classBody s placement x =
      recordMembers name (properties (x.fields s)) decode write := by
  have hobject : ∀ home name tag fields, ∃ decode write,
      objectMembers s placement home name tag fields =
        recordMembers name (properties fields) decode write :=
    fun home name tag fields => ⟨_, _, rfl⟩
  have htuple : ∀ home name fields, ∃ decode write,
      tupleMembers s home name fields = recordMembers name (properties fields) decode write :=
    fun home name fields => ⟨_, _, rfl⟩
  rcases hrecord.cases hx with ⟨id, fields, rfl, hbody, hfields⟩ |
      ⟨id, fields, rfl, hbody, hfields⟩ | ⟨id, c, body, rfl, hbody, -, hfields⟩
  · simp only [classBody, hbody, hfields]
    exact ⟨_, hobject _ _ _ _⟩
  · simp only [classBody, hbody, hfields]
    exact ⟨_, htuple _ _ _⟩
  · simp only [classBody, hbody, hfields]
    exact ⟨_, hobject _ _ _ _⟩

/-- The members of its own are in every class with fields. -/
theorem opens_recordMembers
    (name : String)
    (ms : List Emit.Member)
    (decode write : Code)
    {member : OwnMember}
    (hmember : member ∈ ownMembers) :
    Opens member.header (recordMembers name ms decode write) := by
  simp only [ownMembers, List.mem_cons, List.not_mem_nil, or_false] at hmember
  unfold recordMembers
  rcases hmember with rfl | rfl | rfl | rfl
  · exact ((Opens.block _ _).append_right _).append_left _
  · have hequals : Opens "equals(other)" (Code.blank ++ equalsMethod name ms) :=
      (Opens.block _ _).append_right _
    exact ((((hequals.append_left _).append_left _).append_left _).append_left _).append_right _
  · have hhash : Opens "hashCode()" (hashMethod ms) := Opens.block _ _
    exact (((hhash.append_right _).append_left _).append_left _).append_right _
  · have hshow : Opens "toString()" (toStringMethod name ms) := Opens.block _ _
    exact (hshow.append_right _).append_right _

theorem hasMembers_of_record
    {s : Schema}
    (placement : Placement)
    {x : Site}
    (hx : x ∈ sites s)
    (hrecord : x.IsRecord s) :
    HasMembers s placement x := by
  obtain ⟨name, decode, write, hbody⟩ := exists_classBody placement hx hrecord
  refine ⟨defines_declCode s placement hx fun endpoints hservice => ?_, fun m hm => ?_,
    fun member hmember => ?_⟩
  · rcases hrecord.cases hx with ⟨id, fields, rfl, hfields, -⟩ | ⟨id, fields, rfl, hfields, -⟩ |
        ⟨id, c, body, rfl, hfields, -⟩ <;>
      exact absurd (hservice.symm.trans hfields) (by simp)
  · rw [hbody, recordMembers]
    simp only [List.append_assoc]
    exact (prints_constructor hm).append_left _
  · rw [hbody]
    exact opens_recordMembers name _ decode write hmember

end JavaScript

namespace Swift

/-- How a struct shows itself. -/
def textMember : OwnMember :=
  ⟨"description", "public var description: String"⟩

/-- How a struct is written to a document, in its extension. -/
def encodeMethod : OwnMember :=
  ⟨"encode", "func encode() throws -> "⟩

/-- What a struct can do besides holding its properties. -/
def ownMembers : List OwnMember :=
  [textMember, encodeMethod]

/-- The name of a type where it is defined. -/
def writtenName
    (s : Schema) :
    Site → String
  | .decl id => definedName s id
  | .case _ c => typeIdent c.name

/-- The inside of a struct, without the types inside it. -/
def structBody
    (s : Schema)
    (x : Site) :
    Code :=
  structMembers s (x.name s) (x.fields s)

/-- A struct has its properties and its text, and its extension writes it. -/
structure HasMembers
    (s : Schema)
    (x : Site) : Prop where
  defined : ∀ inner, Defines (writtenName s x) (structBody s x) (definition s x.place inner)
  property : ∀ m ∈ properties (x.fields s),
    Prints s!"public let {m.ident}: {propertyType s m.field}" (structBody s x)
  text : Opens textMember.header (structBody s x)
  codec : (extensions s x.place).Has fun part =>
    ∃ inside, part = Code.block s!"public extension {siteName s x}" inside ∧
      Opens encodeMethod.header inside

theorem prints_structMembers
    (s : Schema)
    (display : String)
    {fields : List Field}
    {m : Emit.Member}
    (hm : m ∈ properties fields) :
    Prints s!"public let {m.ident}: {propertyType s m.field}" (structMembers s display fields) := by
  have hline : Prints s!"public let {m.ident}: {propertyType s m.field}"
      ((properties fields).flatMap fun m => Code.doc "///" m.field.doc
        ++ Code.line s!"public let {m.ident}: {propertyType s m.field}") :=
    Code.Has.flatMap ((Code.prints_line Within.refl).append_right _) hm
  unfold structMembers
  simp only [List.append_assoc]
  exact hline.append_left _

theorem opens_structMembers
    (s : Schema)
    (display : String)
    (fields : List Field) :
    Opens textMember.header (structMembers s display fields) :=
  (Opens.block _ _).append_right _

/-- The extension of a type has its method. -/
theorem has_codec
    (name encoded : String)
    (decode encode : Code) :
    (codec name encoded decode encode).Has fun part =>
      ∃ inside, part = Code.block s!"public extension {name}" inside ∧
        Opens encodeMethod.header inside := by
  have hencode : Opens encodeMethod.header
      (Code.block s!"func encode() throws -> {encoded}" encode) :=
    Opens.block_append _ encoded encode
  unfold codec
  exact Code.Has.append_right (Code.Has.whole ⟨_, rfl, hencode.append_right _⟩) _

theorem hasMembers_of_record
    {s : Schema}
    {x : Site}
    (hx : x ∈ sites s)
    (hrecord : x.IsRecord s) :
    HasMembers s x := by
  refine ⟨?_, fun m hm => prints_structMembers s _ hm, opens_structMembers s _ _, ?_⟩
  · intro inner
    rcases hrecord.cases hx with ⟨id, fields, rfl, hbody, hfields⟩ |
        ⟨id, fields, rfl, hbody, hfields⟩ | ⟨id, c, body, rfl, hbody, hc, hfields⟩
    · simp only [structBody, hfields, writtenName, definition, Site.place, hbody]
      refine Code.Has.append_right ?_ _
      exact Code.defines_blockEnding ((Within.refl.append_right _).append_left _ |>.append_left _) _
        (List.prefix_append _ _)
    · simp only [structBody, hfields, writtenName, definition, Site.place, hbody]
      refine Code.Has.append_right ?_ _
      exact Code.defines_blockEnding ((Within.refl.append_right _).append_left _ |>.append_left _) _
        (List.prefix_append _ _)
    · have hcase : Defines (typeIdent c.name) (structMembers s c.name (body.fieldsOf c))
          (caseStruct s body c) := by
        refine Code.Has.append_right ?_ _
        exact Code.defines_blockEnding
          ((Within.refl.append_right _).append_left _ |>.append_left _) _ List.prefix_rfl
      simp only [structBody, hfields, writtenName, definition, Site.place, hbody, Site.name]
      refine Code.Has.append_right (Code.Has.block (Code.Has.append_left ?_ _) _) _
      exact (hcase.flatMap hc).append_right _
  · rcases hrecord.cases hx with ⟨id, fields, rfl, hbody, -⟩ |
        ⟨id, fields, rfl, hbody, -⟩ | ⟨id, c, body, rfl, hbody, hc, -⟩
    · simp only [extensions, Site.place, hbody]
      exact has_codec _ _ _ _
    · simp only [extensions, Site.place, hbody]
      exact has_codec _ _ _ _
    · simp only [extensions, Site.place, hbody]
      refine Code.Has.append_right (Code.Has.flatMap ?_ hc) _
      exact has_codec _ _ _ _

end Swift

namespace CSharp

/-- What a class with fields can do besides holding its properties. -/
def ownMembers : List OwnMember :=
  [⟨"Equals", "public override bool Equals(Object other)"⟩,
    ⟨"GetHashCode", "public override int GetHashCode()"⟩,
    ⟨"ToString", "public override String ToString()"⟩]

/-- The class inside the class of a tuple that reads and writes it. -/
def converter : OwnMember :=
  ⟨"Json_Net_Converter", converterHeader⟩

/-- A class has its properties and members of its own, and that of a tuple a converter. -/
structure HasMembers
    (s : Schema)
    (placement : Placement)
    (x : Site) : Prop where
  defined : ∀ inner, Defines (x.ident .csharp s) (classBody s placement x)
    (declCode s placement x.place inner)
  property : ∀ m ∈ properties (x.fields s),
    Prints s!"public {propertyType s x.place.package m.field} {m.ident}" (classBody s placement x)
  own : ∀ member ∈ ownMembers, Opens member.header (classBody s placement x)
  tuple : ∀ id fields, x = .decl id → (s.decl id).body = .tuple fields →
    Opens converter.header (classBody s placement x)

theorem exists_classBody
    {s : Schema}
    (placement : Placement)
    {x : Site}
    (hx : x ∈ sites s)
    (hrecord : x.IsRecord s) :
    ∃ display name baseCall rest, classBody s placement x =
      classMembers s x.place.package display name baseCall (x.fields s) ++ rest := by
  rcases hrecord.cases hx with ⟨id, fields, rfl, hbody, hfields⟩ |
      ⟨id, fields, rfl, hbody, hfields⟩ | ⟨id, c, body, rfl, hbody, -, hfields⟩
  · simp only [classBody, hbody, hfields]
    exact ⟨_, _, _, [], (List.append_nil _).symm⟩
  · simp only [classBody, hbody, hfields]
    exact ⟨_, _, _, _, List.append_assoc _ _ _⟩
  · simp only [classBody, hbody, hfields]
    exact ⟨_, _, _, [], (List.append_nil _).symm⟩

theorem prints_classMembers_property
    (s : Schema)
    (home : Nat)
    (display name baseCall : String)
    {fields : List Field}
    {m : Emit.Member}
    (hm : m ∈ properties fields) :
    Prints s!"public {propertyType s home m.field} {m.ident}"
      (classMembers s home display name baseCall fields) := by
  have hproperty : Prints s!"public {propertyType s home m.field} {m.ident}"
      (property s home m) := by
    unfold property
    refine Code.Has.append_left (Code.Has.append_right ?_ _) _
    exact Code.prints_header Within.refl _
  unfold classMembers
  simp only [List.append_assoc]
  exact (hproperty.flatMap hm).append_left _

theorem opens_classMembers
    (s : Schema)
    (home : Nat)
    (display name baseCall : String)
    (fields : List Field)
    {member : OwnMember}
    (hmember : member ∈ ownMembers) :
    Opens member.header (classMembers s home display name baseCall fields) := by
  simp only [ownMembers, List.mem_cons, List.not_mem_nil, or_false] at hmember
  unfold classMembers
  rcases hmember with rfl | rfl | rfl
  · have hequals : Opens "public override bool Equals(Object other)"
        (equalsMethod s name (properties fields)) :=
      Opens.block _ _
    exact ((((hequals.append_right _).append_left _).append_left _).append_left _).append_left _
  · have hhash : Opens "public override int GetHashCode()"
        (hashMethod s (properties fields)) :=
      Opens.block _ _
    exact ((hhash.append_right _).append_left _).append_left _
  · exact (Opens.block _ _).append_right _

theorem hasMembers_of_record
    {s : Schema}
    (placement : Placement)
    {x : Site}
    (hx : x ∈ sites s)
    (hrecord : x.IsRecord s) :
    HasMembers s placement x := by
  obtain ⟨display, name, baseCall, rest, hmembers⟩ := exists_classBody placement hx hrecord
  refine ⟨fun inner => defines_declCode s placement inner hx fun type members henum => ?_,
    fun m hm => ?_, fun member hmember => ?_, ?_⟩
  · rcases hrecord.cases hx with ⟨id, fields, rfl, hbody, -⟩ | ⟨id, fields, rfl, hbody, -⟩ |
        ⟨id, c, body, rfl, hbody, -⟩ <;>
      exact absurd (henum.symm.trans hbody) (by simp)
  · rw [hmembers]
    exact (prints_classMembers_property s _ _ _ _ hm).append_left _
  · rw [hmembers]
    exact (opens_classMembers s _ _ _ _ _ hmember).append_left _
  · rintro id fields rfl hbody
    simp only [classBody, hbody]
    have hconverter : ∀ path, Opens converter.header (tupleConverter s id.package path fields) :=
      fun path => Opens.block _ _
    exact (hconverter _).append_right _

end CSharp

section Clashes

open Naming (Language Casing)

/-- A property has a name when that of a field is spelled like it. -/
theorem exists_ident_iff
    (language : Language)
    (casing : Casing)
    (fields : List Field)
    {word : String}
    (hmark : '_' ∉ word.toList)
    (hfree : language.isReserved word = false)
    (hcased : casing.apply word ≠ "") :
    (∃ m ∈ Emit.members language casing fields, m.ident = word) ↔
      ∃ f ∈ fields, casing.apply f.name = word := by
  have hmem : word ∈ language.spellAll casing (fields.map (·.name)) ↔
      ∃ name ∈ fields.map (·.name), casing.apply name = word :=
    Naming.mem_spellAll_iff hmark hfree hcased
  rw [← Emit.map_ident_members, List.mem_map] at hmem
  rw [hmem]
  simp

theorem JavaScript.exists_property_iff
    (fields : List Field)
    {member : OwnMember}
    (hmember : member ∈ ownMembers) :
    (∃ m ∈ properties fields, m.ident = member.name) ↔
      member.name ∈ ["encode", "equals"] ∧
        ∃ f ∈ fields, Casing.lowerSnake.apply f.name = member.name := by
  have hcapital : ∀ {c : Char}, c.isUpper = true → c ∈ member.name.toList →
      ¬ ∃ f ∈ fields, Casing.lowerSnake.apply f.name = member.name := by
    rintro c hupper hc ⟨f, -, hf⟩
    rw [← hf] at hc
    exact absurd (Naming.isUpper_of_mem_lowerSnake hc) (by simp [hupper])
  unfold properties
  simp only [ownMembers, List.mem_cons, List.not_mem_nil, or_false] at hmember
  rcases hmember with rfl | rfl | rfl | rfl
  · rw [exists_ident_iff _ _ _ (by decide) (by decide) (by decide +kernel)]
    simp
  · rw [exists_ident_iff _ _ _ (by decide) (by decide) (by decide +kernel)]
    simp
  · rw [exists_ident_iff _ _ _ (by decide) (by decide) (by decide +kernel)]
    have hnone := hcapital (show 'C'.isUpper = true by decide) (by decide)
    simp [hnone]
  · rw [exists_ident_iff _ _ _ (by decide) (by decide) (by decide +kernel)]
    have hnone := hcapital (show 'S'.isUpper = true by decide) (by decide)
    simp [hnone]

theorem Swift.exists_property_iff
    (fields : List Field)
    {member : OwnMember}
    (hmember : member ∈ ownMembers) :
    (∃ m ∈ properties fields, m.ident = member.name) ↔
      ∃ f ∈ fields, Casing.lowerSnake.apply f.name = member.name := by
  unfold properties
  simp only [ownMembers, List.mem_cons, List.not_mem_nil, or_false] at hmember
  rcases hmember with rfl | rfl <;>
    exact exists_ident_iff _ _ _ (by decide) (by decide) (by decide +kernel)

theorem CSharp.ident_ne
    {fields : List Field}
    {m : Emit.Member}
    (hm : m ∈ properties fields)
    {member : OwnMember}
    (hmember : member ∈ converter :: ownMembers) :
    m.ident ≠ member.name := by
  have hident : m.ident ∈ Language.csharp.spellAll .lowerCamel (fields.map (·.name)) := by
    rw [← Emit.map_ident_members]
    exact List.mem_map_of_mem hm
  have hcapital : ∃ c, member.name.toList.head? = some c ∧ c.isUpper = true := by
    simp only [ownMembers, List.mem_cons, List.not_mem_nil, or_false] at hmember
    rcases hmember with rfl | rfl | rfl | rfl <;> exact ⟨_, rfl, by decide⟩
  intro heq
  obtain ⟨c, hc, hupper⟩ := hcapital
  rw [← heq] at hc
  exact absurd (Naming.isUpper_of_head?_lowerCamel (by decide) hident hc) (by simp [hupper])

end Clashes

/-- Which members of a class have the name of a property.  Every class with fields has properties
and members of its own.  In JavaScript a property has the name of `encode` or `equals`, and in Swift
that of `description` or `encode`, exactly when the name of a field is spelled like it; the other
members of JavaScript and all of C# are no names of properties. -/
theorem record_members
    (s : Schema)
    (placement : Placement)
    {x : Site}
    (hx : x ∈ sites s)
    (hrecord : x.IsRecord s) :
    (JavaScript.HasMembers s placement x ∧ Swift.HasMembers s x ∧
        CSharp.HasMembers s placement x) ∧
      (∀ member ∈ JavaScript.ownMembers,
        (∃ m ∈ JavaScript.properties (x.fields s), m.ident = member.name) ↔
          member.name ∈ ["encode", "equals"] ∧
            ∃ f ∈ x.fields s, Naming.Casing.lowerSnake.apply f.name = member.name) ∧
      (∀ member ∈ Swift.ownMembers,
        (∃ m ∈ Swift.properties (x.fields s), m.ident = member.name) ↔
          ∃ f ∈ x.fields s, Naming.Casing.lowerSnake.apply f.name = member.name) ∧
      ∀ member ∈ CSharp.converter :: CSharp.ownMembers,
        ∀ m ∈ CSharp.properties (x.fields s), m.ident ≠ member.name :=
  ⟨⟨JavaScript.hasMembers_of_record placement hx hrecord, Swift.hasMembers_of_record hx hrecord,
      CSharp.hasMembers_of_record placement hx hrecord⟩,
    fun _ hmember => JavaScript.exists_property_iff _ hmember,
    fun _ hmember => Swift.exists_property_iff _ hmember,
    fun _ hmember _ hm => CSharp.ident_ne hm hmember⟩

end Target

namespace Sample

/-- A file with a type whose fields have the names of members. -/
def named : SourceFile :=
  { file := 0
    identity := ⟨⟨["foo"]⟩, none⟩
    tree :=
      { doc := []
        imports := []
        decls :=
          [⟨[], [], ⟨"A", default⟩,
            .type [field "encode" false (.primitive .string),
              field "description" false (.primitive .string)],
            default⟩] } }

/-- The schema of the type. -/
def namedSchema : Schema :=
  ⟨[{ identity := ⟨⟨["foo"]⟩, none⟩
      ns := ⟨["foo"], none⟩
      doc := []
      decls :=
        [⟨⟨0, 0⟩, "A", [], none, [],
          .type
            [⟨"encode", "encode", .primitive .string, false, [], default⟩,
              ⟨"description", "description", .primitive .string, false, [], default⟩],
          default⟩]
      roots := [0] }]⟩

theorem resolve_named :
    resolve options [named] = .ok ⟨namedSchema, []⟩ := by
  with_unfolding_all rfl

end Sample

namespace Target

/-- A case whose properties have the names of no members. -/
theorem record_members_line :
    Sample.lineSite ∈ sites Sample.schema ∧ Sample.lineSite.IsRecord Sample.schema ∧
      Sample.lineSite.fields Sample.schema ≠ [] ∧
      JavaScript.HasMembers Sample.schema .last Sample.lineSite ∧
      ∀ member ∈ JavaScript.ownMembers,
        ∀ m ∈ JavaScript.properties (Sample.lineSite.fields Sample.schema),
          m.ident ≠ member.name := by
  have hsite : Sample.lineSite ∈ sites Sample.schema := by
    simp [Sample.sites_shapes]
  have hspellings : ∀ f ∈ Sample.lineSite.fields Sample.schema,
      Naming.Casing.lowerSnake.apply f.name ∉ ["encode", "equals"] := by
    decide +kernel
  obtain ⟨⟨hhas, -, -⟩, hclash, -, -⟩ := record_members Sample.schema .last hsite trivial
  refine ⟨hsite, trivial, by decide, hhas, fun member hmember m hm heq => ?_⟩
  obtain ⟨hname, f, hf, hspelled⟩ := (hclash member hmember).mp ⟨m, hm, heq⟩
  exact hspellings f hf (hspelled ▸ hname)

/-- A type that resolves has properties with the names of members, in JavaScript and in Swift. -/
theorem exists_hidden_member :
    resolve Sample.options [Sample.named] = .ok ⟨Sample.namedSchema, []⟩ ∧
      ∃ x ∈ sites Sample.namedSchema, x.IsRecord Sample.namedSchema ∧
        (∃ member ∈ JavaScript.ownMembers,
          ∃ m ∈ JavaScript.properties (x.fields Sample.namedSchema), m.ident = member.name) ∧
        ∀ member ∈ Swift.ownMembers,
          ∃ m ∈ Swift.properties (x.fields Sample.namedSchema), m.ident = member.name := by
  refine ⟨Sample.resolve_named, .decl ⟨0, 0⟩, (mem_sites_decl _).mpr (by decide), rfl, ?_, ?_⟩
  · have hidents : (JavaScript.properties (Site.fields Sample.namedSchema (.decl ⟨0, 0⟩))).map
        (·.ident) = ["encode", "description"] := by
      decide +kernel
    have hmem := hidents ▸ List.mem_cons_self (a := "encode") (l := ["description"])
    exact ⟨_, List.mem_cons_self, List.mem_map.mp hmem⟩
  · have hidents : (Swift.properties (Site.fields Sample.namedSchema (.decl ⟨0, 0⟩))).map
        (·.ident) = ["encode", "description"] := by
      decide +kernel
    intro member hmember
    have hname : member.name ∈ ["encode", "description"] := by
      simp only [Swift.ownMembers, List.mem_cons, List.not_mem_nil, or_false] at hmember
      rcases hmember with rfl | rfl <;> decide
    exact List.mem_map.mp (hidents ▸ hname)

end Target
end Schemata
