import Schemata.Proofs.Naming.Capital
import Schemata.Proofs.Naming.Idempotence
import Schemata.Proofs.Target.Untagged

/-!
# Swift: the cases of the enum of an interface

The cases are spelled apart from each other and from reserved words.  The two
names that every enum has already are marked after that, and the marked name
may be in use: `description` with a mark is so exactly if a second sibling is
spelled `description`.  Such siblings have the same words, so that their structs
have one identifier too.

**Results.** `avoided_mem_iff`, `nodup_caseNames_iff`, `resolve_caseNames`.
-/

namespace Schemata

namespace Naming

/-- A marked word is no natural spelling in camel case. -/
theorem mark_ne_natural
    {language : Language}
    {word : String}
    (hfree : language.isReserved word = false)
    (hcased : Casing.lowerCamel.apply (language.mark.apply word) ≠ "")
    (name : String) :
    language.natural .lowerCamel name ≠ language.mark.apply word := by
  have hspell : ∀ text, language.spell text = language.mark.apply word →
      text = language.mark.apply word := by
    intro text heq
    unfold Language.spell at heq
    split at heq
    next hreserved =>
      -- only a reserved word is marked, and the word is not one
      rw [language.mark_injective heq, hfree] at hreserved
      cases hreserved
    next =>
      exact heq
  intro heq
  rw [Language.natural] at heq
  split at heq
  next hempty =>
    rw [hspell _ heq] at hempty
    exact hcased (by simpa using hempty)
  next =>
    have hunderscore := language.underscore_mem_mark word
    rw [← hspell _ heq] at hunderscore
    exact absurd (isAlphanum_of_mem_lowerCamel hunderscore) (by decide)

end Naming

namespace Target
namespace Swift

open Naming (Casing Language)

/-- The names that every enum has already. -/
def inheritedNames : List String :=
  ["description", "hashValue"]

section Names

theorem avoidInherited_of_mem
    {word : String}
    (hword : word ∈ inheritedNames) :
    avoidInherited word = Language.swift.mark.apply word := by
  simp only [inheritedNames, List.mem_cons, List.not_mem_nil, or_false] at hword
  rcases hword with rfl | rfl <;> rfl

theorem avoidInherited_of_notMem
    {name : String}
    (hname : name ∉ inheritedNames) :
    avoidInherited name = name := by
  simp only [inheritedNames, List.mem_cons, List.not_mem_nil, or_false, not_or] at hname
  unfold avoidInherited
  split
  · exact absurd rfl hname.1
  · exact absurd rfl hname.2
  · rfl

/-- What is known of the names that every enum has. -/
structure IsInherited
    (word : String) : Prop where
  unmarked : '_' ∉ word.toList
  free : Language.swift.isReserved word = false
  cased : Casing.lowerCamel.apply word ≠ ""
  casedMark : Casing.lowerCamel.apply (Language.swift.mark.apply word) ≠ ""

theorem isInherited_of_mem
    {word : String}
    (hword : word ∈ inheritedNames) :
    IsInherited word := by
  simp only [inheritedNames, List.mem_cons, List.not_mem_nil, or_false] at hword
  rcases hword with rfl | rfl
  · exact ⟨by decide, by decide, by decide +kernel, by decide +kernel⟩
  · exact ⟨by decide, by decide, by decide +kernel, by decide +kernel⟩

theorem mark_notMem_inheritedNames
    (name : String) :
    Language.swift.mark.apply name ∉ inheritedNames := fun hmem =>
  (isInherited_of_mem hmem).unmarked (Language.swift.underscore_mem_mark name)

/-- Names that are avoided alike are the same, or one is the other with a mark. -/
theorem eq_or_marked_of_avoidInherited_eq
    {a b : String}
    (h : avoidInherited a = avoidInherited b) :
    a = b ∨ (a ∈ inheritedNames ∧ b = Language.swift.mark.apply a) ∨
      (b ∈ inheritedNames ∧ a = Language.swift.mark.apply b) := by
  by_cases ha : a ∈ inheritedNames <;> by_cases hb : b ∈ inheritedNames
  · rw [avoidInherited_of_mem ha, avoidInherited_of_mem hb] at h
    exact Or.inl (Language.swift.mark_injective h)
  · rw [avoidInherited_of_mem ha, avoidInherited_of_notMem hb] at h
    exact Or.inr (Or.inl ⟨ha, h.symm⟩)
  · rw [avoidInherited_of_notMem ha, avoidInherited_of_mem hb] at h
    exact Or.inr (Or.inr ⟨hb, h⟩)
  · rw [avoidInherited_of_notMem ha, avoidInherited_of_notMem hb] at h
    exact Or.inl h

end Names

section Cases

variable (body : InterfaceBody)

/-- How the cases of an interface are spelled, before they are told apart. -/
def casedNames : List String :=
  body.subTypes.map fun c => Casing.lowerCamel.apply c.name

/-- The spellings of the cases, before those that every enum has are avoided. -/
def spelledNames : List String :=
  Language.swift.spellAll .lowerCamel (body.subTypes.map (·.name))

theorem spelledNames_apart :
    Language.swift.SpelledApart
      ((body.subTypes.map fun c => c.name).map (Language.swift.natural .lowerCamel))
      (spelledNames body) :=
  Language.spellAll_apart .swift .lowerCamel _

variable {body}

theorem count_natural
    {word : String}
    (hword : IsInherited word) :
    ((body.subTypes.map (·.name)).map (Language.swift.natural .lowerCamel)).count word =
      (casedNames body).count word := by
  rw [casedNames, List.map_map, List.count_eq_countP, List.count_eq_countP, List.countP_map,
    List.countP_map]
  refine List.countP_congr fun c _ => ?_
  have hiff : Language.swift.natural .lowerCamel c.name = word ↔
      Casing.lowerCamel.apply c.name = word :=
    Naming.natural_eq_iff hword.unmarked hword.free hword.cased
  simpa using hiff

/-- A name that every enum has is in use with a mark exactly if two cases are spelled like it. -/
theorem avoided_mem_iff
    {word : String}
    (hword : IsInherited word) :
    Language.swift.mark.apply word ∈ spelledNames body ↔ 2 ≤ (casedNames body).count word := by
  rw [← count_natural hword]
  refine (spelledNames_apart body).mark_mem_iff hword.unmarked ?_
  intro hmem
  obtain ⟨name, -, heq⟩ := List.mem_map.mp hmem
  exact Naming.mark_ne_natural hword.free hword.casedMark name heq

theorem mem_spelledNames_iff
    {word : String}
    (hword : IsInherited word) :
    word ∈ spelledNames body ↔ word ∈ casedNames body := by
  rw [spelledNames, Naming.mem_spellAll_iff hword.unmarked hword.free hword.cased]
  simp [casedNames]

/-- The cases are distinct exactly if no two of them are spelled like a name that every enum has. -/
theorem nodup_caseNames_iff :
    (caseNames body).Nodup ↔
      ∀ word ∈ inheritedNames, (casedNames body).count word ≤ 1 := by
  constructor
  · intro h word hword
    by_contra hmany
    have hinherited := isInherited_of_mem hword
    have hmarked := (avoided_mem_iff hinherited).mpr (Nat.lt_of_not_le hmany)
    have hplain : word ∈ spelledNames body := by
      refine (mem_spelledNames_iff hinherited).mpr (List.count_pos_iff.mp ?_)
      omega
    have halike : avoidInherited word = avoidInherited (Language.swift.mark.apply word) := by
      rw [avoidInherited_of_mem hword, avoidInherited_of_notMem (mark_notMem_inheritedNames word)]
    have heq := List.inj_on_of_nodup_map h hplain hmarked halike
    rw [heq] at hword
    exact mark_notMem_inheritedNames _ hword
  · intro h
    have hfree : ∀ word ∈ inheritedNames, Language.swift.mark.apply word ∉ spelledNames body := by
      intro word hword hmem
      have hmany := (avoided_mem_iff (isInherited_of_mem hword)).mp hmem
      have hfew := h word hword
      omega
    refine (spelledNames_apart body).nodup.map_on fun a ha b hb heq => ?_
    rcases eq_or_marked_of_avoidInherited_eq heq with heq | ⟨hword, rfl⟩ | ⟨hword, rfl⟩
    · exact heq
    · exact absurd hb (hfree a hword)
    · exact absurd ha (hfree b hword)

/-- Where the structs of the cases have distinct identifiers, so have the cases. -/
theorem nodup_caseNames_of_nodup_typeIdent
    (h : (body.subTypes.map fun c => typeIdent c.name).Nodup) :
    (caseNames body).Nodup := by
  refine nodup_caseNames_iff.mpr fun word _ => List.nodup_iff_count_le_one.mp ?_ word
  have hspelled : (body.subTypes.map fun c => typeIdent c.name) = (casedNames body).map
      fun text => Language.swift.spell (String.ofList (Naming.capital text.toList)) := by
    rw [casedNames, List.map_map]
    refine List.map_congr_left fun c _ => ?_
    have hupper := Naming.toList_upperCamel_eq_capital c.name
    rw [Function.comp_apply, ← hupper, String.ofList_toList]
    rfl
  rw [hspelled] at h
  exact h.of_map _

/-- No case has a reserved name or one that every enum has. -/
theorem free_of_mem_caseNames
    {name : String}
    (hname : name ∈ caseNames body) :
    Language.swift.isReserved name = false ∧ name ∉ inheritedNames := by
  obtain ⟨spelled, hspelled, rfl⟩ := List.mem_map.mp hname
  by_cases hword : spelled ∈ inheritedNames
  · rw [avoidInherited_of_mem hword]
    exact ⟨Language.isReserved_mark _ _, mark_notMem_inheritedNames _⟩
  · rw [avoidInherited_of_notMem hword]
    exact ⟨(spelledNames_apart body).free _ hspelled, hword⟩

end Cases

/-- The enum of an interface has a line for each case. -/
theorem prints_case
    {s : Schema}
    {id : DeclId}
    {body : InterfaceBody}
    (hbody : (s.decl id).body = .interface body)
    (inner : List Code)
    {c : SubType}
    {name : String}
    (hc : (c, name) ∈ body.subTypes.zip (caseNames body)) :
    Code.Prints s!"case {name}({caseType s id c})" (definition s id inner) := by
  have hcase : Code.Prints s!"case {name}({caseType s id c})" (interfaceMembers s id body) := by
    have hlist : Code.Prints s!"case {name}({caseType s id c})"
        ((body.subTypes.zip (caseNames body)).flatMap fun named =>
          Code.doc "///" named.1.doc ++
            Code.line s!"case {named.2}({caseType s id named.1})") :=
      Code.Has.flatMap (a := (c, name)) ((Code.prints_line .refl).append_right _) hc
    exact ((hlist.append_left _).append_left _).append_left _
  simp only [definition, hbody]
  exact ((hcase.append_left _).block _).append_right _

/-- Cases with plain names have structs with distinct identifiers. -/
theorem nodup_typeIdent_of_isPlain
    {body : InterfaceBody}
    (hnames : (body.subTypes.map fun c => c.name).Nodup)
    (hplain : ∀ c ∈ body.subTypes, Naming.isPlain c.name = true) :
    (body.subTypes.map fun c => typeIdent c.name).Nodup := by
  have hsplit : (body.subTypes.map fun c => typeIdent c.name) =
      (body.subTypes.map fun c => c.name).map typeIdent := by
    simp only [List.map_map, Function.comp_def]
  rw [hsplit]
  refine hnames.map_on fun a ha b hb heq => ?_
  obtain ⟨c, hc, rfl⟩ := List.mem_map.mp ha
  obtain ⟨d, hd, rfl⟩ := List.mem_map.mp hb
  exact ((Emit.typeIdent_eq_iff _ _ _).mp heq).eq_of_isPlain (hplain c hc) (hplain d hd)

end Swift
end Target

/-- The cases of the enum of an interface.  None has a reserved name or one that every enum has.  They
are distinct exactly if at most one is spelled like each of the names that every enum has; so they
are where their structs have distinct identifiers, as they have where the names are plain. -/
theorem resolve_caseNames
    {options : ResolveOptions}
    {files : List SourceFile}
    {r : Resolved}
    (h : resolve options files = .ok r)
    {id : DeclId}
    {body : InterfaceBody}
    (hbody : (r.schema.decl id).body = .interface body) :
    (Target.Swift.caseNames body).length = body.subTypes.length ∧
      (∀ inner, ∀ named ∈ body.subTypes.zip (Target.Swift.caseNames body),
        Code.Prints s!"case {named.2}({Target.Swift.caseType r.schema id named.1})"
          (Target.Swift.definition r.schema id inner)) ∧
      (∀ name ∈ Target.Swift.caseNames body,
        Naming.Language.swift.isReserved name = false ∧ name ≠ "description" ∧
          name ≠ "hashValue") ∧
      ((Target.Swift.caseNames body).Nodup ↔ ∀ word ∈ ["description", "hashValue"],
        (body.subTypes.map fun c => Naming.Casing.lowerCamel.apply c.name).count word ≤ 1) ∧
      ((body.subTypes.map fun c => Target.Swift.typeIdent c.name).Nodup →
        (Target.Swift.caseNames body).Nodup) ∧
      ((∀ c ∈ body.subTypes, Naming.isPlain c.name = true) →
        (Target.Swift.caseNames body).Nodup) := by
  have hstructs : (body.subTypes.map fun c => Target.Swift.typeIdent c.name).Nodup →
      (Target.Swift.caseNames body).Nodup :=
    Target.Swift.nodup_caseNames_of_nodup_typeIdent
  refine ⟨Target.Swift.length_caseNames body,
    fun inner named hnamed => Target.Swift.prints_case hbody inner hnamed, fun name hname => ?_,
    Target.Swift.nodup_caseNames_iff, hstructs, fun hplain => hstructs ?_⟩
  · obtain ⟨hfree, hnot⟩ := Target.Swift.free_of_mem_caseNames hname
    simpa [Target.Swift.inheritedNames] using And.intro hfree hnot
  · have hwf := ((Resolve.resolvedFrom_of_resolve h).wellFormed.decl id).body
    rw [hbody] at hwf
    exact Target.Swift.nodup_typeIdent_of_isPlain hwf.names hplain

/-- The cases of shapes are distinct. -/
theorem resolve_caseNames_shapes :
    resolve Sample.options [Sample.shapes] = .ok ⟨Sample.schema, []⟩ ∧
      ∃ body, (Sample.schema.decl ⟨0, 0⟩).body = .interface body ∧
        (Target.Swift.caseNames body).length = 2 ∧ (Target.Swift.caseNames body).Nodup := by
  have hbody : (Sample.schema.decl ⟨0, 0⟩).body = .interface _ := rfl
  obtain ⟨hlength, -, -, -, -, hplain⟩ := resolve_caseNames Sample.resolve_shapes hbody
  exact ⟨Sample.resolve_shapes, _, hbody, hlength, hplain (by decide)⟩

namespace Sample

/-- A file with an interface of which two cases are spelled like a name that every enum has. -/
def described : SourceFile :=
  { file := 0
    identity := ⟨⟨["foo"]⟩, none⟩
    tree :=
      { doc := []
        imports := []
        decls := [⟨[], [], ⟨"I", default⟩,
          .interface []
            [⟨[], ⟨"Description", default⟩, none, [], default⟩,
              ⟨[], ⟨"Description_", default⟩, none, [], default⟩], default⟩] } }

/-- The body of the interface. -/
def describedBody : InterfaceBody :=
  ⟨[], [⟨"Description", "Description", [], [], default⟩,
    ⟨"Description_", "Description_", [], [], default⟩], .tagged "type"⟩

/-- The schema of the interface. -/
def describedSchema : Schema :=
  ⟨[{ identity := ⟨⟨["foo"]⟩, none⟩
      ns := ⟨["foo"], none⟩
      doc := []
      decls := [⟨⟨0, 0⟩, "I", [], none, [], .interface describedBody, default⟩]
      roots := [0] }]⟩

theorem resolve_described :
    resolve options [described] = .ok ⟨describedSchema, []⟩ := by
  with_unfolding_all rfl

end Sample

/-- Two cases of an interface that resolves have one name in the enum. -/
theorem exists_equal_caseNames :
    resolve Sample.options [Sample.described] = .ok ⟨Sample.describedSchema, []⟩ ∧
      (Sample.describedSchema.decl ⟨0, 0⟩).body = .interface Sample.describedBody ∧
      Target.Swift.caseNames Sample.describedBody = ["description_", "description_"] ∧
      ¬ (Target.Swift.caseNames Sample.describedBody).Nodup := by
  have hnames : Target.Swift.caseNames Sample.describedBody =
      ["description_", "description_"] := by
    decide +kernel
  refine ⟨Sample.resolve_described, rfl, hnames, ?_⟩
  rw [hnames]
  decide

end Schemata
