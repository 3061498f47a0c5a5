import Schemata.Proofs.Resolve.Address
import Schemata.Proofs.Target.Member

/-!
# Swift: where declarations are written, and under which names

A protocol cannot hold types, so what is inside a service is written beside it
and carries its name.  A declaration is therefore written in the definition of
its holder, the nearest declaration around it that is no service, or at the
level of the file if there are only services around it.

What is written there should be the last part of the full name, a single
identifier.  A declaration that stands directly in its holder gets its own
identifier.  One that stands in a service is defined under its full name, which
is a single identifier at the level of the file, and has a dot elsewhere.

**Results.**
* `written_of_mem_nestingTo`: each declaration is written in its holder.
* `fullName_of_mem_ids`: what the full name is after that of the holder.
* `resolve_definedNames`: which declarations are defined under that part of their
  full name.
-/

namespace Schemata

/-- A path ends with the name of the declaration. -/
theorem Schema.name_mem_declPath
    {s : Schema}
    {id : DeclId}
    (hid : id ∈ s.ids) :
    (s.decl id).name ∈ s.declPath id := by
  obtain ⟨above, habove⟩ := Package.exists_parents_eq_cons _ ((s.mem_ids_iff id).mp hid).2
  simp only [Schema.declPath, habove, List.map_cons, List.mem_reverse]
  exact List.mem_cons_self

namespace Target
namespace Swift

open Naming (IsLegal IsIdentText)

section Holders

variable (s : Schema)
variable (id : DeclId)

/-- The declaration in whose definition a declaration is written: the nearest one around it that is
no service. -/
def holder? : Option DeclId :=
  let p := s.package id.package
  ((p.parents id.index).tail.find? fun outer => !isService p outer).map (⟨id.package, ·⟩)

theorem holder?_eq_none_iff :
    holder? s id = none ↔ AtFileLevel s id := by
  simp [holder?, AtFileLevel]

end Holders

section Steps

variable {s : Schema}
variable (hs : s.Linked)

include hs

theorem holder?_of_root
    {package : Nat}
    (hpackage : package < s.packages.length)
    {index : Nat}
    (hindex : index ∈ (s.package package).roots) :
    holder? s ⟨package, index⟩ = none := by
  have hforest := hs.forest _ _ (s.getElem?_package hpackage)
  simp [holder?, hforest.parents_of_root hindex]

variable {outer child : DeclId}
variable (houter : outer ∈ s.ids)
variable (hchild : child ∈ s.childrenOf outer)

include houter hchild

/-- A service hands what is inside it on to its own holder. -/
theorem holder?_of_child :
    holder? s child =
      if isService (s.package outer.package) outer.index then holder? s outer else some outer := by
  obtain ⟨index, hindex, rfl⟩ := List.mem_map.mp hchild
  obtain ⟨-, hlt⟩ := (s.mem_ids_iff outer).mp houter
  obtain ⟨above, habove⟩ := Package.exists_parents_eq_cons _ hlt
  simp only [holder?, (hs.forest_of_mem houter).parents_of_child hlt hindex, habove,
    List.tail_cons, List.find?_cons]
  cases isService (s.package outer.package) outer.index with
  | true => simp
  | false => simp

theorem qualified_of_child :
    qualified s child =
      qualified s outer ++ joint (s.package outer.package) outer.index ++
        typeIdent (s.decl child).name := by
  obtain ⟨index, hindex, rfl⟩ := List.mem_map.mp hchild
  obtain ⟨-, hlt⟩ := (s.mem_ids_iff outer).mp houter
  obtain ⟨above, habove⟩ := Package.exists_parents_eq_cons _ hlt
  simp only [qualified, (hs.forest_of_mem houter).parents_of_child hlt hindex, habove, chainName]
  rfl

end Steps

section Definitions

/-- The header of the definition of a declaration. -/
def heading
    (s : Schema)
    (id : DeclId) :
    String :=
  let name := definedName s id
  match (s.decl id).body with
  | .type _ | .tuple _ => s!"public struct {name}: {conformances}"
  | .interface _ => s!"public indirect enum {name}: {conformances}"
  | .enum _ _ => s!"public enum {name}: {conformances}"
  | .service _ => s!"public protocol {name}"

/-- Code has the definition of a declaration, inside no other part. -/
def Defined
    (s : Schema)
    (id : DeclId)
    (code : Code) : Prop :=
  ∃ body, Code.block (heading s id) body <:+: code

/-- Code has the definition of a declaration, and directly inside it the one of another. -/
def DefinedIn
    (s : Schema)
    (outer id : DeclId)
    (code : Code) : Prop :=
  code.Has fun part => ∃ inside, part = Code.block (heading s outer) inside ∧ Defined s id inside

variable {s : Schema}
variable {id x : DeclId}
variable {code : Code}

theorem Defined.of_infix
    {part : Code}
    (h : Defined s id part)
    (hpart : part <:+: code) :
    Defined s id code := by
  obtain ⟨body, hbody⟩ := h
  exact ⟨body, hbody.trans hpart⟩

theorem infix_flatMap_blank
    {made : List Code}
    (hmem : code ∈ made) :
    code <:+: made.flatMap (Code.blank ++ ·) := by
  obtain ⟨before, after, rfl⟩ := List.append_of_mem hmem
  rw [List.flatMap_append, List.flatMap_cons]
  refine ⟨before.flatMap (Code.blank ++ ·) ++ Code.blank, after.flatMap (Code.blank ++ ·), ?_⟩
  simp only [List.append_assoc]

/-- The definition of a service comes before those of the declarations inside it. -/
theorem exists_definition_of_service
    (hservice : isService (s.package id.package) id.index = true)
    (made : List Code) :
    ∃ doc own, definition s id made =
      doc ++ Code.block (heading s id) own ++ made.flatMap (Code.blank ++ ·) := by
  unfold isService at hservice
  split at hservice
  next endpoints hbody =>
    have hbody : (s.decl id).body = .service endpoints := hbody
    simp only [definition, heading, hbody, ← List.append_assoc]
    exact ⟨_, _, rfl⟩
  next =>
    cases hservice

/-- The definition of any other declaration has those of the declarations inside it. -/
theorem exists_definition_of_holder
    (hholder : isService (s.package id.package) id.index = false)
    {made : List Code}
    (henum : ∀ type members, (s.decl id).body = .enum type members → made = []) :
    ∃ doc own, definition s id made =
      doc ++ Code.block (heading s id) (own ++ made.flatMap (Code.blank ++ ·)) := by
  have hbody : (s.package id.package).decl id.index = s.decl id := rfl
  rw [isService, hbody] at hholder
  cases hkind : (s.decl id).body with
  | type fields | tuple fields | interface body =>
      simp only [definition, heading, hkind]
      exact ⟨_, _, rfl⟩
  | enum type members =>
      simp only [definition, heading, hkind, henum type members hkind, List.flatMap_nil,
        List.append_nil]
      exact ⟨_, _, rfl⟩
  | service endpoints =>
      rw [hkind] at hholder
      cases hholder

theorem defined_definition
    {made : List Code}
    (henum : ∀ type members, (s.decl id).body = .enum type members → made = []) :
    Defined s id (definition s id made) := by
  cases hservice : isService (s.package id.package) id.index with
  | true =>
      obtain ⟨doc, own, hcode⟩ := exists_definition_of_service hservice made
      rw [hcode]
      exact ⟨own, List.infix_append _ _ _⟩
  | false =>
      obtain ⟨doc, own, hcode⟩ := exists_definition_of_holder hservice henum
      rw [hcode]
      exact ⟨_, (List.suffix_append _ _).isInfix⟩

/-- The definition of a declaration keeps what is in those of the declarations inside it. -/
theorem has_definition
    {P : Code → Prop}
    {made : List Code}
    (henum : ∀ type members, (s.decl id).body = .enum type members → made = [])
    (hmem : code ∈ made)
    (h : code.Has P) :
    (definition s id made).Has P := by
  have hmade : Code.Has P (made.flatMap (Code.blank ++ ·)) :=
    Code.Has.flatMap (h.append_right Code.blank) hmem
  cases hservice : isService (s.package id.package) id.index with
  | true =>
      obtain ⟨doc, own, hcode⟩ := exists_definition_of_service hservice made
      rw [hcode]
      exact hmade.append_right _
  | false =>
      obtain ⟨doc, own, hcode⟩ := exists_definition_of_holder hservice henum
      rw [hcode]
      exact ((hmade.append_right own).block _).append_right doc

end Definitions

section Resolved

variable {options : ResolveOptions}
variable {files : List SourceFile}
variable {s : Schema}
variable (h : Resolve.ResolvedFrom options files s)

include h

/-- A declaration of a tree is written beside the definition of the tree, if they have one holder,
and otherwise directly inside the definition of its holder. -/
theorem written_of_mem_nestingTo
    {depth : Nat}
    {id x : DeclId}
    (hid : id ∈ s.ids)
    (hx : x ∈ (s.nestingTo depth id).levelOrder) :
    (holder? s x = holder? s id ∧ Defined s x ((s.nestingTo depth id).fold (definition s))) ∨
      ∃ outer, holder? s x = some outer ∧
        DefinedIn s outer x ((s.nestingTo depth id).fold (definition s)) := by
  have hs := linked_of_resolvedFrom h
  induction depth generalizing id with
  | zero =>
      rcases (Nesting.mem_levelOrder_node id x []).mp hx with rfl | ⟨n, hn, -⟩
      · exact .inl ⟨rfl, defined_definition fun _ _ _ => rfl⟩
      · cases hn
  | succ depth ih =>
      rw [Schema.fold_nestingTo_succ]
      generalize hmade : (s.childrenOf id).map (fun child =>
        (s.nestingTo depth child).fold (definition s)) = made
      have henum : ∀ type members, (s.decl id).body = .enum type members → made = [] := by
        intro type members hbody
        rw [← hmade, childrenOf_of_enum h hbody, List.map_nil]
      rcases (s.mem_nestingTo_succ depth id x).mp hx with rfl | ⟨child, hchild, hx⟩
      · exact .inl ⟨rfl, defined_definition henum⟩
      · have hmem : (s.nestingTo depth child).fold (definition s) ∈ made :=
          hmade ▸ List.mem_map_of_mem hchild
        have hpart := infix_flatMap_blank hmem
        have hholder := holder?_of_child hs hid hchild
        rcases ih (hs.mem_ids_child hid hchild).1 hx with ⟨hsame, hdefined⟩ | ⟨outer, houter, hcode⟩
        · -- the declaration stands beside the child
          cases hservice : isService (s.package id.package) id.index with
          | true =>
              obtain ⟨doc, own, hcode⟩ := exists_definition_of_service hservice made
              rw [hservice, if_pos rfl] at hholder
              rw [hcode]
              exact .inl ⟨hsame.trans hholder,
                hdefined.of_infix (hpart.trans (List.suffix_append _ _).isInfix)⟩
          | false =>
              obtain ⟨doc, own, hcode⟩ := exists_definition_of_holder hservice henum
              rw [hservice, if_neg Bool.false_ne_true] at hholder
              rw [hcode]
              refine .inr ⟨id, hsame.trans hholder, Code.Has.append_right (.whole ⟨_, rfl, ?_⟩) doc⟩
              exact hdefined.of_infix (hpart.trans (List.suffix_append _ _).isInfix)
        · exact .inr ⟨outer, houter, has_definition henum hmem hcode⟩

end Resolved

section Names

theorem isLegal_typeIdent
    {name : String}
    (h : IsTypeName name) :
    IsLegal .swift (typeIdent name) := by
  obtain ⟨c, rest, hname, hc, -⟩ := Token.mem_oneOf_mul.mp h
  have halphanum : c.isAlphanum = true := by
    simp [Char.isAlphanum, Char.isAlpha, hc]
  have hdigit : c.isDigit = false := by
    have hchar := Naming.IdentCase.of_isIdentChar (Naming.isIdentChar_of_isAlphanum halphanum)
    have halpha : c.isAlpha = true := by
      simp [Char.isAlpha, hc]
    simpa [halpha] using hchar.noDigit
  have hfirst : ¬ Naming.HidesDigit name := by
    simp [Naming.HidesDigit, hname, halphanum, hdigit]
  have hne : (Naming.Casing.upperCamel.apply name).toList ≠ [] := by
    intro hnil
    have hhead := Naming.head?_upperCamel name
    simp [hnil, hname, halphanum] at hhead
  refine (Naming.isLegal_iff (Naming.toList_spell_ne_nil .swift hne)
    (Emit.isIdentText_typeIdent .swift name) (Naming.Language.isReserved_spell .swift _)).mpr ?_
  rw [Naming.beginsWithDigit_spell .swift hne,
    Naming.beginsWithDigit_apply .upperCamel h.isIdentText]
  exact hfirst

/-- An identifier to which another text is joined is an identifier. -/
theorem isLegal_joined
    {before after : String}
    (hfirst : ∃ c rest, before.toList = c :: rest ∧ (c.isAlpha = true ∨ c = '_'))
    (hbefore : IsIdentText before)
    (hafter : IsIdentText after) :
    IsLegal .swift (before ++ "_" ++ after) := by
  obtain ⟨c, rest, hcons, hc⟩ := hfirst
  refine ⟨⟨c, rest ++ '_' :: after.toList, by simp [hcons], hc⟩, ?_, ?_⟩
  · exact (Naming.isIdentText_append _ _).mpr
      ⟨(Naming.isIdentText_append _ _).mpr ⟨hbefore, by decide⟩, hafter⟩
  · rw [Naming.Language.isReserved, List.contains_eq_mem, decide_eq_false_iff_not]
    intro hreserved
    exact Naming.Language.underscore_not_mem_reserved .swift hreserved (by simp)

/-- The text of a package begins with a letter. -/
theorem exists_cons_packageText
    {p : Package}
    (h : p.ns.WellFormed) :
    ∃ c rest, (packageText p).toList = c :: rest ∧ (c.isAlpha = true ∨ c = '_') := by
  obtain ⟨part, parts, hparts⟩ := List.exists_cons_of_ne_nil h.ne_nil
  obtain ⟨c, cs, hpart, hlower, -⟩ :=
    PackageName.exists_cons_of_isPart (h.parts part (hparts ▸ List.mem_cons_self))
  have halphanum : c.isAlphanum = true := by
    simp [Char.isAlphanum, Char.isAlpha, hlower]
  have hcapital : c.toUpper.isAlpha = true := by
    have hsmall : Naming.isSmall c = true := by
      simp [Naming.isSmall, hlower]
    simp [Char.isAlpha, ((Naming.SmallCase.of_isSmall hsmall).ofLetter hlower).1]
  have hhead : (Naming.Casing.upperCamel.apply part).toList.head? = some c.toUpper := by
    rw [Naming.head?_upperCamel, hpart, List.find?_cons_of_pos halphanum, Option.map_some]
  obtain ⟨rest, hcased⟩ := List.head?_eq_some_iff.mp hhead
  have hsegments : segments p = Naming.Casing.upperCamel.apply part ::
      (parts.map Naming.Casing.upperCamel.apply ++ p.ns.version.toList) := by
    simp [segments, Emit.namespaceSegments, hparts]
  rw [packageText, hsegments, String.toList_intercalate, List.map_cons, hcased]
  cases (parts.map Naming.Casing.upperCamel.apply ++ p.ns.version.toList) with
  | nil => exact ⟨_, _, rfl, .inl hcapital⟩
  | cons second more => exact ⟨_, _, rfl, .inl hcapital⟩

/-- The full name of a declaration: that of its holder, a dot and an identifier, or an identifier
alone. -/
structure FullName
    (s : Schema)
    (id : DeclId)
    (name : String) : Prop where
  legal : IsLegal .swift name
  free : holder? s id = none → qualified s id = name
  held : ∀ outer, holder? s id = some outer → qualified s id = qualified s outer ++ "." ++ name

variable {s : Schema}
variable (hs : s.Linked)
variable (hfit : s.NamespacesFit)
variable (hnames : ∀ id ∈ s.ids, IsTypeName (s.decl id).name)

include hs hfit hnames

theorem fullName_of_mem_ids
    {id : DeclId}
    (hid : id ∈ s.ids) :
    ∃ name, FullName s id name := by
  obtain ⟨package, index⟩ := id
  obtain ⟨hpackage, hindex⟩ := (s.mem_ids_iff _).mp hid
  have hforest := hs.forest_of_mem hid
  refine hforest.induction (motive := fun index => ∃ name, FullName s ⟨package, index⟩ name)
    (fun index hroot => ?_) (fun outer houter index hchild ih => ?_) hindex
  · have hwf := hfit.wellFormed_package hpackage
    have hholder := holder?_of_root hs hpackage hroot
    have hname : qualified s ⟨package, index⟩ =
        packageText (s.package package) ++ "_" ++ typeIdent (s.decl ⟨package, index⟩).name := by
      simp only [qualified, hforest.parents_of_root hroot, chainName]
      rfl
    refine ⟨_, ?_, fun _ => hname, fun outer houter => ?_⟩
    · exact isLegal_joined (exists_cons_packageText hwf)
        (Naming.isIdentText_intercalate (Emit.isIdentText_namespaceSegments_upperCamel hwf))
        (Emit.isIdentText_typeIdent .swift _)
    · rw [hholder] at houter
      cases houter
  · have hmem : ⟨package, outer⟩ ∈ s.ids := (s.mem_ids_iff _).mpr ⟨hpackage, houter⟩
    have hinside : ⟨package, index⟩ ∈ s.childrenOf ⟨package, outer⟩ := List.mem_map_of_mem hchild
    have hholder := holder?_of_child hs hmem hinside
    have hqualified := qualified_of_child hs hmem hinside
    cases hservice : isService (s.package package) outer with
    | true =>
        obtain ⟨name, hlegal, hfree, hheld⟩ := ih
        rw [hservice, if_pos rfl] at hholder
        rw [joint, hservice, if_pos rfl] at hqualified
        refine ⟨name ++ "_" ++ typeIdent (s.decl ⟨package, index⟩).name, ?_, fun hnone => ?_,
          fun holder hsome => ?_⟩
        · exact isLegal_joined hlegal.first hlegal.text (Emit.isIdentText_typeIdent .swift _)
        · rw [hqualified, hfree (hholder ▸ hnone)]
        · rw [hqualified, hheld holder (hholder ▸ hsome)]
          simp only [String.append_assoc]
    | false =>
        rw [hservice, if_neg Bool.false_ne_true] at hholder
        rw [joint, hservice, if_neg Bool.false_ne_true] at hqualified
        refine ⟨typeIdent (s.decl ⟨package, index⟩).name, ?_, fun hnone => ?_,
          fun holder hsome => ?_⟩
        · exact isLegal_typeIdent (hnames _ (hs.mem_ids_child hmem hinside).1)
        · rw [hholder] at hnone
          cases hnone
        · obtain rfl := Option.some.inj (hholder.symm.trans hsome)
          exact hqualified

omit hfit hnames

/-- What is written directly in its holder stands in it. -/
theorem exists_outer_of_not_isFlat
    {id : DeclId}
    (hid : id ∈ s.ids)
    (hflat : isFlat s id = false) :
    ∃ outer, holder? s id = some outer ∧
      qualified s id = qualified s outer ++ "." ++ typeIdent (s.decl id).name := by
  unfold isFlat at hflat
  split at hflat
  next =>
    cases hflat
  next outer hparent =>
    obtain ⟨-, hlt, hmem⟩ := (hs.forest_of_mem hid).mem_children_of_parent hparent
    have houter : ⟨id.package, outer⟩ ∈ s.ids :=
      (s.mem_ids_iff _).mpr ⟨((s.mem_ids_iff id).mp hid).1, hlt⟩
    have hchild : id ∈ s.childrenOf ⟨id.package, outer⟩ := List.mem_map_of_mem hmem
    have hholder := holder?_of_child hs houter hchild
    have hqualified := qualified_of_child hs houter hchild
    rw [hflat, if_neg Bool.false_ne_true] at hholder
    rw [joint, hflat, if_neg Bool.false_ne_true] at hqualified
    exact ⟨_, hholder, hqualified⟩

/-- The name in the definition is the last part of the full name, unless the declaration stands in a
service that is written inside another declaration: then it is the full name, with its dots. -/
theorem definedName_eq_iff
    {id : DeclId}
    (hid : id ∈ s.ids)
    {name : String}
    (hname : FullName s id name) :
    (definedName s id = name ↔ (isFlat s id = true → AtFileLevel s id)) ∧
      ('.' ∈ (definedName s id).toList ↔ isFlat s id = true ∧ ¬ AtFileLevel s id) := by
  have hdot : '.' ∉ name.toList := hname.legal.text.dot_not_mem
  cases hflat : isFlat s id with
  | true =>
      have hdefined : definedName s id = qualified s id := by
        rw [definedName, hflat, if_pos rfl]
      by_cases hlevel : AtFileLevel s id
      · have hfree := hname.free ((holder?_eq_none_iff s id).mpr hlevel)
        simp [hdefined, hfree, hdot, hlevel]
      · obtain ⟨outer, houter⟩ := Option.ne_none_iff_exists'.mp fun hnone =>
          hlevel ((holder?_eq_none_iff s id).mp hnone)
        have hmem : '.' ∈ (qualified s id).toList := by
          simp [hname.held outer houter]
        have hne : qualified s id ≠ name := fun heq => hdot (heq ▸ hmem)
        simp [hdefined, hmem, hne, hlevel]
  | false =>
      have hdefined : definedName s id = typeIdent (s.decl id).name := by
        rw [definedName, hflat, if_neg Bool.false_ne_true]
      obtain ⟨outer, houter, hqualified⟩ := exists_outer_of_not_isFlat hs hid hflat
      have hsame : typeIdent (s.decl id).name = name := by
        rw [hname.held outer houter] at hqualified
        exact (String.append_right_inj _).mp hqualified.symm
      simp [hdefined, hsame, hdot]

end Names

/-- A declaration other than a service is extended under its full name. -/
theorem extended_extensions
    {s : Schema}
    {id : DeclId}
    (hservice : isService (s.package id.package) id.index = false) :
    (extensions s id).Has fun part =>
      ∃ inside, part = Code.block s!"public extension {qualified s id}" inside := by
  have hcodec : ∀ encoded decode encode, (codec (qualified s id) encoded decode encode).Has
      fun part => ∃ inside, part = Code.block s!"public extension {qualified s id}" inside := by
    intro encoded decode encode
    exact Code.Has.append_right (.whole ⟨_, rfl⟩) Code.blank
  have hbody : (s.package id.package).decl id.index = s.decl id := rfl
  rw [isService, hbody] at hservice
  cases hkind : (s.decl id).body with
  | type fields | tuple fields | enum type members =>
      simp only [extensions, hkind]
      exact hcodec _ _ _
  | interface body =>
      simp only [extensions, hkind]
      exact (hcodec _ _ _).append_left _
  | service endpoints =>
      rw [hkind] at hservice
      cases hservice

end Swift
end Target

/-- Under which names declarations are defined in Swift.  Each is written at the level of the file, or
directly inside the definition of its holder, and its full name is an identifier, or that of its
holder, a dot and an identifier; under the full name it is extended.  It is defined under the
identifier, unless it stands in a service that is not at the level of the file; only then the name in
the definition has a dot. -/
theorem resolve_definedNames
    {options : ResolveOptions}
    {files : List SourceFile}
    {r : Resolved}
    (h : resolve options files = .ok r)
    (hvalid : ∀ f ∈ files, f.identity.name.IsValid)
    (hparsed : ∀ f ∈ files, ∃ source, (Tree.parse f.file source).1 = f.tree) :
    ∀ id ∈ r.schema.ids, ∃ name, Naming.IsLegal .swift name ∧
      (Target.Swift.holder? r.schema id = none →
        Target.Swift.qualified r.schema id = name ∧
          Target.Swift.Defined r.schema id
            (Target.Swift.declCode r.schema (r.schema.rootOf id))) ∧
      (∀ outer, Target.Swift.holder? r.schema id = some outer →
        Target.Swift.qualified r.schema id =
            Target.Swift.qualified r.schema outer ++ "." ++ name ∧
          Target.Swift.DefinedIn r.schema outer id
            (Target.Swift.declCode r.schema (r.schema.rootOf id))) ∧
      (Target.Swift.isService (r.schema.package id.package) id.index = false →
        (Target.Swift.declCode r.schema (r.schema.rootOf id)).Has fun part =>
          ∃ inside, part =
            Code.block s!"public extension {Target.Swift.qualified r.schema id}" inside) ∧
      (Target.Swift.definedName r.schema id = name ↔
        (Target.Swift.isFlat r.schema id = true → Target.Swift.AtFileLevel r.schema id)) ∧
      ('.' ∈ (Target.Swift.definedName r.schema id).toList ↔
        Target.Swift.isFlat r.schema id = true ∧ ¬ Target.Swift.AtFileLevel r.schema id) := by
  have hresolved := Resolve.resolvedFrom_of_resolve h
  have hs := linked_of_resolvedFrom hresolved
  have hfit := Resolve.namespacesFit_of_resolve h hvalid
  have hnamed : ∀ f ∈ files, ∀ d ∈ f.tree.decls, d.Named IsTypeName := by
    intro f hf
    obtain ⟨source, hsource⟩ := hparsed f hf
    rw [← hsource]
    exact Tree.named_of_parse f.file source
  have hnames : ∀ id ∈ r.schema.ids, IsTypeName (r.schema.decl id).name := fun id hid =>
    (hresolved.isTypeName_of_mem_declPath hnamed hid).2 _ (Schema.name_mem_declPath hid)
  intro id hid
  obtain ⟨name, hname⟩ := Target.Swift.fullName_of_mem_ids hs hfit hnames hid
  obtain ⟨hdefined, hdotted⟩ := Target.Swift.definedName_eq_iff hs hid hname
  have hinside := hs.mem_withDescendants_rootOf hid
  have hpackage := ((r.schema.mem_ids_iff id).mp hid).1
  have hroot := hs.mem_ids_of_mem_rootsOf hpackage (hs.rootOf id hid)
  have htop : Target.Swift.holder? r.schema (r.schema.rootOf id) = none := by
    obtain ⟨index, hindex, heq⟩ := List.mem_map.mp (hs.rootOf id hid)
    rw [← heq]
    exact Target.Swift.holder?_of_root hs hpackage hindex
  have hwritten := Target.Swift.written_of_mem_nestingTo hresolved hroot hinside
  rw [htop] at hwritten
  refine ⟨name, hname.legal, fun hnone => ⟨hname.free hnone, ?_⟩,
    fun outer houter => ⟨hname.held outer houter, ?_⟩, fun hservice => ?_, hdefined, hdotted⟩
  · rcases hwritten with ⟨-, hdef⟩ | ⟨outer, houter, -⟩
    · exact hdef.of_infix (List.prefix_append _ _).isInfix
    · cases hnone.symm.trans houter
  · rcases hwritten with ⟨hnone, -⟩ | ⟨outer', houter', hdef⟩
    · cases hnone.symm.trans houter
    · obtain rfl := Option.some.inj (houter.symm.trans houter')
      exact hdef.append_left _
  · exact Code.Has.append_right
      (Code.Has.flatMap (Target.Swift.extended_extensions hservice) hinside) _

/-- A type of keys inside a type of rooms. -/
theorem resolve_definedNames_keyed :
    resolve Sample.options Sample.keyedFiles = .ok ⟨Sample.keyedSchema, []⟩ ∧
      (∀ f ∈ Sample.keyedFiles, f.identity.name.IsValid) ∧
      (∀ f ∈ Sample.keyedFiles, ∃ source, (Tree.parse f.file source).1 = f.tree) ∧
      Target.Swift.qualified Sample.keyedSchema ⟨1, 1⟩ = "Rooms__1_0_0_Room.Key" ∧
      Target.Swift.definedName Sample.keyedSchema ⟨1, 1⟩ = "Key" ∧
      Target.Swift.DefinedIn Sample.keyedSchema ⟨1, 0⟩ ⟨1, 1⟩
        (Target.Swift.declCode Sample.keyedSchema ⟨1, 0⟩) := by
  have hvalid : ∀ f ∈ Sample.keyedFiles, f.identity.name.IsValid := fun f hf =>
    (Sample.isValid_keyed f hf).name
  have hid : ⟨1, 1⟩ ∈ Sample.keyedSchema.ids := by
    decide
  obtain ⟨name, -, -, hheld, -⟩ :=
    resolve_definedNames Sample.resolve_keyed hvalid Sample.parse_keyed ⟨1, 1⟩ hid
  have hholder : Target.Swift.holder? Sample.keyedSchema ⟨1, 1⟩ = some ⟨1, 0⟩ := by
    decide
  refine ⟨Sample.resolve_keyed, hvalid, Sample.parse_keyed, by decide +kernel, by decide +kernel,
    (hheld _ hholder).2⟩

namespace Sample

/-- A file with a type of windows, a service in it and a type in the service. -/
def serving : SourceFile :=
  { file := 0
    identity := ⟨⟨["foo"]⟩, none⟩
    tree :=
      { doc := []
        imports := []
        decls :=
          [⟨[], [], ⟨"A", default⟩,
            .type
              [.decl ⟨[], [], ⟨"S", default⟩,
                .service [] [⟨[], [], ⟨"B", default⟩, .type [], default⟩], default⟩],
            default⟩] } }

/-- The schema of the two types and the service between them. -/
def servingSchema : Schema :=
  ⟨[{ identity := ⟨⟨["foo"]⟩, none⟩
      ns := ⟨["foo"], none⟩
      doc := []
      decls :=
        [⟨⟨0, 0⟩, "A", [], none, [1], .type [], default⟩,
          ⟨⟨0, 1⟩, "S", [], some 0, [2], .service [], default⟩,
          ⟨⟨0, 2⟩, "B", [], some 1, [], .type [], default⟩]
      roots := [0] }]⟩

theorem resolve_serving :
    resolve options [serving] = .ok ⟨servingSchema, []⟩ := by
  with_unfolding_all rfl

end Sample

/-- A type in a service in a type resolves and is not refused.  It is defined inside the outer type,
under a name with a dot. -/
theorem exists_dotted_definition :
    resolve Sample.options [Sample.serving] = .ok ⟨Sample.servingSchema, []⟩ ∧
      Target.swift.error? Sample.servingSchema ⟨0, 0⟩ = none ∧
      Target.Swift.definedName Sample.servingSchema ⟨0, 2⟩ = "Foo_A.S_B" ∧
      ¬ Naming.IsLegal .swift (Target.Swift.definedName Sample.servingSchema ⟨0, 2⟩) ∧
      Target.Swift.DefinedIn Sample.servingSchema ⟨0, 0⟩ ⟨0, 2⟩
        (Target.Swift.declCode Sample.servingSchema ⟨0, 0⟩) := by
  have hname : Target.Swift.definedName Sample.servingSchema ⟨0, 2⟩ = "Foo_A.S_B" := by
    decide +kernel
  refine ⟨Sample.resolve_serving, by cbv, hname, fun hlegal => ?_, ?_⟩
  · rw [hname] at hlegal
    exact hlegal.text.dot_not_mem (by decide)
  · have hresolved := Resolve.resolvedFrom_of_resolve Sample.resolve_serving
    have hholder : Target.Swift.holder? Sample.servingSchema ⟨0, 2⟩ = some ⟨0, 0⟩ := by
      decide
    have hinside := (linked_of_resolvedFrom hresolved).mem_withDescendants_rootOf
      (show ⟨0, 2⟩ ∈ Sample.servingSchema.ids by decide)
    rcases Target.Swift.written_of_mem_nestingTo hresolved (by decide) hinside with
      ⟨hsame, -⟩ | ⟨outer, houter, hdefined⟩
    · cases hsame.symm.trans hholder
    · obtain rfl := Option.some.inj (hholder.symm.trans houter)
      exact hdefined.append_left _

end Schemata
