import Schemata.Proofs.Resolve.Reference
import Schemata.Proofs.Schema.Nesting
import Schemata.Proofs.Target.Untagged
import Schemata.Proofs.Text.Literal

/-!
# Swift: the literals of texts in documents

Names of properties, tags and literals of cases and the texts of enums stand in
generated code as string literals.  In Swift an item of a literal is a character,
a letter behind a backslash, or a code point in braces.  A literal of generated
code writes the controls that have no letter with four digits and no braces, so
that it is a literal of Swift exactly if its text has none of them.

**Results.**
* `Swift.denotes_literal_iff`: which literals of generated code Swift reads.
* `Swift.prints_extensions`: the texts of documents are printed as literals.
* `resolve_swiftLiterals`: both, for the texts of a schema; every text can be one.
-/

namespace Schemata
namespace Target
namespace Swift

open Text (HexNumber StandsFor Within)

section Grammar

/-- The letters of short escapes, and the characters that these stand for. -/
def letters : List (Char × Char) :=
  [('0', '\x00'), ('\\', '\\'), ('t', '\t'), ('n', '\n'), ('r', '\r'), ('\x22', '\x22'),
    ('\x27', '\x27')]

/-- An item of a string literal and the character that it stands for. -/
inductive Item : List Char → Char → Prop
  | plain
      {c : Char}
      (hquote : c ≠ '\x22')
      (hbackslash : c ≠ '\\')
      (hline : c ≠ '\n' ∧ c ≠ '\r') :
      Item [c] c
  | letter
      {a c : Char}
      (hletter : (a, c) ∈ letters) :
      Item ['\\', a] c
  | braced
      {digits : List Char}
      {c : Char}
      (hne : digits ≠ [])
      (hlength : digits.length ≤ 8)
      (hvalue : HexNumber digits c.toNat) :
      Item ('\\' :: 'u' :: '\x7b' :: (digits ++ ['\x7d'])) c

/-- A string literal and the text that it denotes: items between two quotes. -/
def Denotes
    (literal text : String) : Prop :=
  ∃ inside : List Char,
    literal.toList = '\x22' :: (inside ++ ['\x22']) ∧ StandsFor Item inside text.toList

/-- A character is no control, or one with a letter. -/
def Writable
    (c : Char) : Prop :=
  c.toNat < 0x20 → c = '\t' ∨ c = '\n' ∨ c = '\r'
deriving Decidable

variable {c d : Char}

/-- A letter names one character. -/
theorem eq_of_letters
    {a : Char}
    (hc : (a, c) ∈ letters)
    (hd : (a, d) ∈ letters) :
    c = d := by
  have hnodup : (letters.map Prod.fst).Nodup := by
    decide
  exact congrArg Prod.snd (List.inj_on_of_nodup_map hnodup hc hd rfl)

theorem u_notMem_letters :
    ('u', c) ∉ letters := by
  simp [letters]

theorem literalLetters_subset :
    Text.literalLetters ⊆ letters := by
  decide

/-- A character that Swift can write is written as an item. -/
theorem item_literalChar
    (h : Writable c) :
    Item (Text.literalChar c) c := by
  have hwritten := Text.written_literalChar c
  generalize Text.literalChar c = written at hwritten
  cases hwritten with
  | letter hletter =>
      exact .letter (literalLetters_subset hletter)
  | control hcontrol hletter =>
      obtain ⟨hfeed, hreturn, htab⟩ := hletter
      rcases h hcontrol with heq | heq | heq
      · exact absurd heq htab
      · exact absurd heq hfeed
      · exact absurd heq hreturn
  | plain hquote hbackslash hcontrol =>
      refine .plain hquote hbackslash ⟨?_, ?_⟩ <;> rintro rfl <;>
        exact absurd hcontrol (by decide)

/-- Where a character is written at the beginning, the first item stands for it; so Swift can write
the character. -/
theorem Item.eq_literalChar
    {item more rest : List Char}
    (h : Item item d)
    (hbegin : item ++ more = Text.literalChar c ++ rest) :
    item = Text.literalChar c ∧ d = c ∧ Writable c := by
  have hwritten := Text.written_literalChar c
  generalize Text.literalChar c = written at hwritten hbegin
  cases hwritten with
  | @letter a _ hletter =>
      have hwritable : ∀ pair ∈ Text.literalLetters, pair.2.toNat < 0x20 →
          pair.2 = '\t' ∨ pair.2 = '\n' ∨ pair.2 = '\r' := by
        decide
      cases h with
      | plain _ hbackslash =>
          exact absurd (List.cons.inj hbegin).1 hbackslash
      | letter hletter' =>
          obtain ⟨rfl, -⟩ := List.cons.inj (List.cons.inj hbegin).2
          exact ⟨rfl, eq_of_letters hletter' (literalLetters_subset hletter), hwritable _ hletter⟩
      | braced =>
          obtain ⟨rfl, -⟩ := List.cons.inj (List.cons.inj hbegin).2
          exact absurd (literalLetters_subset hletter) u_notMem_letters
  | @control digits _ _ _ hlength hvalue =>
      cases h with
      | plain _ hbackslash =>
          exact absurd (List.cons.inj hbegin).1 hbackslash
      | letter hletter =>
          obtain ⟨rfl, -⟩ := List.cons.inj (List.cons.inj hbegin).2
          exact absurd hletter u_notMem_letters
      | braced =>
          -- the first of the four digits would be a brace
          have hbrace : '\x7b' ∈ digits := by
            match digits, hlength with
            | _ :: _, _ =>
                exact (List.cons.inj (List.cons.inj (List.cons.inj hbegin).2).2).1 ▸
                  List.mem_cons_self
          exact absurd hbrace (hvalue.notMem (by decide))
  | plain hquote hbackslash hcontrol =>
      cases h with
      | plain =>
          obtain ⟨rfl, -⟩ := List.cons.inj hbegin
          exact ⟨rfl, rfl, fun hlt => absurd hcontrol (Nat.not_le.mpr hlt)⟩
      | letter | braced =>
          exact absurd (List.cons.inj hbegin).1.symm hbackslash

/-- Written characters stand for themselves if Swift can write them all, and otherwise for nothing. -/
theorem standsFor_flatMap_iff
    {cs value : List Char} :
    StandsFor Item (cs.flatMap Text.literalChar) value ↔ value = cs ∧ ∀ c ∈ cs, Writable c := by
  constructor
  · intro h
    induction cs generalizing value with
    | nil =>
        generalize hinside : [].flatMap Text.literalChar = inside at h
        cases h with
        | nil =>
            simp
        | cons hitem _ =>
            have hempty := (List.append_eq_nil_iff.mp hinside.symm).1
            cases hitem with
            | plain | letter | braced => cases hempty
    | cons c cs ih =>
        generalize hinside : (c :: cs).flatMap Text.literalChar = inside at h
        rw [List.flatMap_cons] at hinside
        cases h with
        | nil =>
            exact absurd (List.append_eq_nil_iff.mp hinside).1 (Text.literalChar_ne_nil c)
        | cons hitem hrest =>
            obtain ⟨rfl, rfl, hc⟩ := hitem.eq_literalChar hinside.symm
            obtain rfl := List.append_cancel_left hinside
            obtain ⟨rfl, hcs⟩ := ih hrest
            exact ⟨rfl, List.forall_mem_cons.mpr ⟨hc, hcs⟩⟩
  · rintro ⟨rfl, h⟩
    exact .flatMap fun c hc => item_literalChar (h c hc)

/-- A literal of generated code is a literal of Swift if its text has no control but those with a
letter; then it denotes its text, and no other literal of generated code denotes anything. -/
theorem denotes_literal_iff
    {text value : String} :
    Denotes (Text.literal text) value ↔ value = text ∧ ∀ c ∈ text.toList, Writable c := by
  have hinside : ∀ inside, (Text.literal text).toList = '\x22' :: (inside ++ ['\x22']) ↔
      inside = text.toList.flatMap Text.literalChar := by
    intro inside
    rw [Text.toList_literal, List.cons_inj_right, List.append_left_inj, eq_comm]
  simp only [Denotes, hinside, exists_eq_left, standsFor_flatMap_iff, String.toList_inj]

end Grammar

section Printing

/-- The texts of documents that stand in the code of a declaration: names of properties, the tag and
the literals of cases, and the texts of an enum. -/
def documentTexts : DeclBody → List String
  | .type fields => fields.map (·.jsonName)
  | .interface body =>
      (match body.strategy with
        | .tagged tag => tag :: body.subTypes.map (·.literal)
        | .untagged => []) ++
        body.subTypes.flatMap fun c => (body.fieldsOf c).map (·.jsonName)
  | .enum _ members => members.flatMap fun m =>
      match m.value with
      | .string text => [text]
      | .number _ => []
  | .tuple _ | .service _ => []

theorem prints_codec_encode
    {text : String}
    {encode : Code}
    (h : Code.Prints text encode)
    (name encoded : String)
    (decode : Code) :
    Code.Prints text (codec name encoded decode encode) :=
  Code.Has.append_right (Code.Has.block (Code.Has.append_right (Code.Has.block h _) _) _) _

theorem prints_codec_decode
    {text : String}
    {decode : Code}
    (h : Code.Prints text decode)
    (name encoded : String)
    (encode : Code) :
    Code.Prints text (codec name encoded decode encode) :=
  Code.Has.append_right
    (Code.Has.block (Code.Has.append_left (Code.Has.append_left (Code.Has.block h _) _) _) _) _

theorem prints_encodeMember
    (m : Emit.Member) :
    Code.Prints (Text.literal m.field.jsonName) (encodeMember m) := by
  have hput : ∀ value : String, Code.Prints (Text.literal m.field.jsonName)
      (Code.line s!"json[{Text.literal m.field.jsonName}] = {value}") := fun value =>
    Code.prints_line (((Within.refl.append_right _).append_left _).append_left _)
  unfold encodeMember
  split
  · exact Code.Has.block (hput _) _
  · exact hput _

/-- The name of a property is printed where it is written. -/
theorem prints_objectCodec
    (s : Schema)
    (name : String)
    {fields : List Field}
    {f : Field}
    (hf : f ∈ fields) :
    Code.Prints (Text.literal f.jsonName) (objectCodec s name fields) := by
  obtain ⟨m, hm, rfl⟩ := Emit.exists_member .swift .lowerSnake hf
  refine prints_codec_encode ?_ _ _ _
  exact Code.Has.append_left (Code.Has.append_left
    (Code.Has.append_right (Code.Has.flatMap (prints_encodeMember m) hm) _) _) _

theorem exists_mem_zip_caseNames
    {body : InterfaceBody}
    {c : SubType}
    (hc : c ∈ body.subTypes) :
    ∃ name, (c, name) ∈ body.subTypes.zip (caseNames body) := by
  rw [← List.map_fst_zip (Nat.le_of_eq (length_caseNames body).symm)] at hc
  obtain ⟨named, hnamed, rfl⟩ := List.mem_map.mp hc
  exact ⟨named.2, hnamed⟩

/-- The tag is printed where it is read, and the literals of cases where the cases are found. -/
theorem prints_interfaceCodec
    (s : Schema)
    (id : DeclId)
    {body : InterfaceBody}
    {tag : String}
    (htag : body.strategy = .tagged tag)
    {text : String}
    (htext : text ∈ tag :: body.subTypes.map (·.literal)) :
    Code.Prints (Text.literal text) (interfaceCodec s id body) := by
  refine prints_codec_decode (Code.Has.append_right ?_ _) _ _ _
  simp only [decodeInterface, htag]
  rcases List.mem_cons.mp htext with rfl | hliteral
  · refine Code.Has.append_left (Code.Has.append_left (Code.prints_line ?_) _) _
    exact (((Within.refl.append_right _).append_left _).append_left _).append_left _
  · obtain ⟨c, hc, rfl⟩ := List.mem_map.mp hliteral
    obtain ⟨name, hnamed⟩ := exists_mem_zip_caseNames hc
    refine Code.Has.append_right (Code.Has.block ?_ _) _
    refine Code.Has.append_left (Code.Has.append_left
      (Code.Has.flatMap (a := (c, name)) ?_ hnamed) _) _
    exact Code.Has.append_left (Code.prints_line ((Within.refl.append_right _).append_left _)) _

/-- The text of a member of an enum is printed where it is read. -/
theorem prints_enumCodec
    (name : String)
    (type : EnumType)
    {members : List EnumMember}
    {m : EnumMember}
    (hm : m ∈ members) :
    Code.Prints (valueText m.value) (enumCodec name type members) := by
  obtain ⟨caseName, hnamed⟩ :=
    Emit.exists_mem_zip_spellAll .swift .upperCamel (fun m : EnumMember => m.name) hm
  refine prints_codec_decode (Code.Has.append_right (Code.Has.block ?_ _) _) _ _ _
  refine Code.Has.append_left (Code.Has.append_left
    (Code.Has.flatMap (a := (m, caseName)) ?_ hnamed) _) _
  exact Code.Has.append_left (Code.prints_line ((Within.refl.append_right _).append_left _)) _

/-- The texts of documents are printed as literals in the code of their declaration. -/
theorem prints_extensions
    (s : Schema)
    {id : DeclId}
    {text : String}
    (htext : text ∈ documentTexts (s.decl id).body) :
    Code.Prints (Text.literal text) (extensions s id) := by
  unfold extensions
  cases hbody : (s.decl id).body with
  | type fields =>
      rw [hbody] at htext
      obtain ⟨f, hf, rfl⟩ := List.mem_map.mp htext
      exact prints_objectCodec s _ hf
  | tuple | service =>
      rw [hbody] at htext
      cases htext
  | interface body =>
      rw [hbody, documentTexts] at htext
      rcases List.mem_append.mp htext with htext | htext
      · refine Code.Has.append_left ?_ _
        cases hstrategy : body.strategy with
        | tagged tag =>
            rw [hstrategy] at htext
            exact prints_interfaceCodec s id hstrategy htext
        | untagged =>
            rw [hstrategy] at htext
            cases htext
      · obtain ⟨c, hc, hname⟩ := List.mem_flatMap.mp htext
        obtain ⟨f, hf, rfl⟩ := List.mem_map.mp hname
        refine Code.Has.append_right (Code.Has.flatMap (a := c) ?_ hc) _
        exact prints_objectCodec s _ hf
  | enum type members =>
      rw [hbody, documentTexts] at htext
      obtain ⟨m, hm, hvalue⟩ := List.mem_flatMap.mp htext
      have hprints := prints_enumCodec (qualified s id) type hm
      cases hkind : m.value with
      | string value =>
          rw [hkind] at hvalue hprints
          obtain rfl := List.mem_singleton.mp hvalue
          exact hprints
      | number value =>
          rw [hkind] at hvalue
          cases hvalue

/-- The texts of documents of a resolved schema are printed as literals. -/
theorem prints_declCode
    {options : ResolveOptions}
    {files : List SourceFile}
    {s : Schema}
    (h : Resolve.ResolvedFrom options files s)
    {id : DeclId}
    (hid : id ∈ s.ids)
    {text : String}
    (htext : text ∈ documentTexts (s.decl id).body) :
    Code.Prints (Text.literal text) (declCode s (s.rootOf id)) := by
  have hinside := (linked_of_resolvedFrom h).mem_withDescendants_rootOf hid
  exact Code.Has.append_right (Code.Has.flatMap (prints_extensions s htext) hinside) _

end Printing

end Swift
end Target

/-- The texts of documents in Swift code.  Each is printed as a literal.  The literal denotes the text
exactly if no character of the text is a control without a letter, and it denotes nothing else. -/
theorem resolve_swiftLiterals
    {options : ResolveOptions}
    {files : List SourceFile}
    {r : Resolved}
    (h : resolve options files = .ok r) :
    ∀ id ∈ r.schema.ids, ∀ text ∈ Target.Swift.documentTexts (r.schema.decl id).body,
      Code.Prints (Text.literal text) (Target.Swift.declCode r.schema (r.schema.rootOf id)) ∧
      (Target.Swift.Denotes (Text.literal text) text ↔
        ∀ c ∈ text.toList, Target.Swift.Writable c) ∧
      ∀ value, Target.Swift.Denotes (Text.literal text) value → value = text := by
  intro id hid text htext
  refine ⟨Target.Swift.prints_declCode (Resolve.resolvedFrom_of_resolve h) hid htext, ?_,
    fun value hvalue => (Target.Swift.denotes_literal_iff.mp hvalue).1⟩
  simp [Target.Swift.denotes_literal_iff]

namespace Sample

/-- A file with a type of one field, which has a name of its own in documents. -/
def aliased
    (text : String) :
    SourceFile :=
  { file := 0
    identity := ⟨⟨["foo"]⟩, none⟩
    tree :=
      { doc := []
        imports := []
        decls :=
          [⟨[], [], ⟨"A", default⟩,
            .type [.field ⟨[], ⟨"x", default⟩, false, ⟨.primitive .string, default⟩,
              some ⟨text, default⟩, default⟩],
            default⟩] } }

/-- The schema of the type. -/
def aliasedSchema
    (text : String) :
    Schema :=
  ⟨[{ identity := ⟨⟨["foo"]⟩, none⟩
      ns := ⟨["foo"], none⟩
      doc := []
      decls :=
        [⟨⟨0, 0⟩, "A", [], none, [],
          .type [⟨"x", text, .primitive .string, false, [], default⟩], default⟩]
      roots := [0] }]⟩

/-- Any text can be the name of a field in documents. -/
theorem resolve_aliased
    (text : String) :
    resolve options [aliased text] = .ok ⟨aliasedSchema text, []⟩ := by
  cbv

theorem mem_documentTexts_aliased
    (text : String) :
    text ∈ Target.Swift.documentTexts ((aliasedSchema text).decl ⟨0, 0⟩).body :=
  List.mem_cons_self

end Sample

/-- A name with a tab in it. -/
theorem resolve_swiftLiterals_tab :
    resolve Sample.options [Sample.aliased "a\tb"] = .ok ⟨Sample.aliasedSchema "a\tb", []⟩ ∧
      Code.Prints (Text.literal "a\tb")
        (Target.Swift.declCode (Sample.aliasedSchema "a\tb") ⟨0, 0⟩) ∧
      Target.Swift.Denotes (Text.literal "a\tb") "a\tb" := by
  obtain ⟨hprints, hdenotes, -⟩ :=
    resolve_swiftLiterals (Sample.resolve_aliased "a\tb") ⟨0, 0⟩ (by decide) "a\tb"
      (Sample.mem_documentTexts_aliased _)
  exact ⟨Sample.resolve_aliased "a\tb", hprints, hdenotes.mpr (by simp [Target.Swift.Writable])⟩

/-- The name of a property can have a control without a letter.  The declaration is not refused, and
the literal of the name denotes nothing in Swift. -/
theorem exists_unreadable_literal :
    resolve Sample.options [Sample.aliased "\x01"] = .ok ⟨Sample.aliasedSchema "\x01", []⟩ ∧
      Target.swift.error? (Sample.aliasedSchema "\x01") ⟨0, 0⟩ = none ∧
      "\x01" ∈ Target.Swift.documentTexts ((Sample.aliasedSchema "\x01").decl ⟨0, 0⟩).body ∧
      Text.literal "\x01" = "\x22\\u0001\x22" ∧
      Code.Prints (Text.literal "\x01")
        (Target.Swift.declCode (Sample.aliasedSchema "\x01") ⟨0, 0⟩) ∧
      ¬ ∃ value, Target.Swift.Denotes (Text.literal "\x01") value := by
  have hresolve := Sample.resolve_aliased "\x01"
  have htext := Sample.mem_documentTexts_aliased "\x01"
  have hprints := Target.Swift.prints_declCode (Resolve.resolvedFrom_of_resolve hresolve)
    (by decide) htext
  refine ⟨hresolve, by cbv, htext, by decide +kernel, hprints, ?_⟩
  rintro ⟨value, hvalue⟩
  have hwritable := (Target.Swift.denotes_literal_iff.mp hvalue).2 '\x01' (by simp)
  exact absurd hwritable (by decide)

end Schemata
