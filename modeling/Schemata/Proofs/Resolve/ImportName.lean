import Schemata.Proofs.Resolve.Reference
import Schemata.Proofs.Tree.Exact

/-!
# Imports and the names they are used by

An identifier that would be a keyword is written with an underscore in front.
The local name of an import is read as such an identifier is meant, without the
underscore.  The qualifier of a name is kept as it is written.  So an import can
be used by the token that spells its local name exactly when the token has no
such underscore; with one, nothing in the file has the written name.

**Results.** `Tree.Grammar.Use.localName_eq`, `import_used_by_token`.
-/

namespace Schemata

section Escapes

namespace Tree

/-- The spelling of a keyword begins with a letter. -/
theorem head?_spelling_ne
    (word : Keyword) :
    word.spelling.toList.head? ≠ some '_' := by
  cases word with
  | primitive type => cases type <;> decide
  | _ => decide

theorem ofSpelling?_spelling
    (word : Keyword) :
    (Keyword.ofSpelling? word.spelling).isSome = true := by
  cases word with
  | primitive type => cases type <;> decide
  | _ => decide

theorem toList_escaped
    (word : Keyword) :
    ("_" ++ word.spelling).toList = '_' :: word.spelling.toList := by
  rw [String.toList_append]
  rfl

/-- An identifier that is no escaped keyword is read as it is written. -/
theorem unescape_of_ne
    {t : String}
    (h : ∀ word : Keyword, t ≠ "_" ++ word.spelling) :
    unescape t = t := by
  unfold unescape
  split
  · rename_i rest hrest
    dsimp only
    split
    · rename_i hword
      obtain ⟨word, hfound⟩ := Option.isSome_iff_exists.mp hword
      have hspelling : word.spelling = String.ofList rest := by
        simpa using List.find?_some hfound
      refine absurd ?_ (h word)
      rw [← String.toList_inj, toList_escaped, hspelling, String.toList_ofList, hrest]
    · rfl
  · rfl

theorem unescape_escaped
    (word : Keyword) :
    unescape ("_" ++ word.spelling) = word.spelling := by
  unfold unescape
  rw [toList_escaped]
  simp [ofSpelling?_spelling]

/-- No identifier is read as an escaped keyword. -/
theorem unescape_ne_escaped
    (t : String)
    (word : Keyword) :
    unescape t ≠ "_" ++ word.spelling := by
  intro heq
  by_cases h : ∀ other : Keyword, t ≠ "_" ++ other.spelling
  · exact h word ((unescape_of_ne h).symm.trans heq)
  · push Not at h
    obtain ⟨other, rfl⟩ := h
    rw [unescape_escaped] at heq
    refine head?_spelling_ne other ?_
    rw [heq, toList_escaped]
    rfl

end Tree

end Escapes

namespace Tree
namespace Grammar

section Tokens

/-- The text of a lexeme that is an identifier. -/
def identText?
    (l : Lexeme) :
    Option String :=
  match l.symbol with
  | .ident text => some text
  | _ => none

/-- The last identifier among lexemes.  In an import it spells the local name: it is the alias, and
without one the last part of the name of the package. -/
def lastIdent?
    (part : List Lexeme) :
    Option String :=
  part.reverse.findSome? identText?

/-- The identifier that lexemes begin with.  In a name it spells the qualifier. -/
def firstIdent?
    (part : List Lexeme) :
    Option String :=
  part.head?.bind identText?

variable {part p q : List Lexeme}

theorem lastIdent?_append :
    lastIdent? (p ++ q) = (lastIdent? q).or (lastIdent? p) := by
  rw [lastIdent?, List.reverse_append, List.findSome?_append]
  rfl

theorem lastIdent?_cons
    (l : Lexeme) :
    lastIdent? (l :: part) = (lastIdent? part).or (identText? l) := by
  rw [← List.singleton_append, lastIdent?_append]
  simp [lastIdent?]

/-- The last identifier of lexemes is read as a name. -/
def SpellsLast
    (part : List Lexeme)
    (names : List (Located String)) : Prop :=
  ∃ t last, lastIdent? part = some t ∧ names.getLast? = some last ∧ last.value = unescape t

theorem Ident.lastIdent?_eq
    {name : Located String}
    (h : Ident part name) :
    ∃ t, lastIdent? part = some t ∧ name.value = unescape t := by
  cases h with
  | @mk l text hl =>
      refine ⟨text, ?_, rfl⟩
      simp [lastIdent?, identText?, hl]

theorem SpellsLast.after
    {names : List (Located String)}
    (h : SpellsLast q names)
    (p : List Lexeme)
    (name : Located String) :
    SpellsLast (p ++ q) (name :: names) := by
  obtain ⟨t, last, ht, hlast, hvalue⟩ := h
  refine ⟨t, last, ?_, ?_, hvalue⟩
  · rw [lastIdent?_append, ht, Option.some_or]
  · rw [List.getLast?_cons, hlast, Option.getD_some]

theorem Many.spellsLast
    {mark : Punctuation}
    {names : List (Located String)}
    (h : Many (Led (.punctuation mark) Ident) part names) :
    (part = [] ∧ names = []) ∨ SpellsLast part names := by
  induction h with
  | nil => exact .inl ⟨rfl, rfl⟩
  | @cons p q a as hname _ ih =>
      right
      rcases ih with ⟨rfl, rfl⟩ | hlast
      · cases hname with
        | @mk l p _ _ hname =>
            obtain ⟨t, ht, hvalue⟩ := hname.lastIdent?_eq
            refine ⟨t, a, ?_, rfl, hvalue⟩
            rw [List.append_nil, lastIdent?_cons, ht, Option.some_or]
      · exact hlast.after p a

theorem Separated.spellsLast
    {mark : Punctuation}
    {names : List (Located String)}
    (h : Separated mark Ident part names) :
    SpellsLast part names := by
  cases h with
  | @mk p q a as hname hrest =>
      rcases hrest.spellsLast with ⟨rfl, rfl⟩ | hlast
      · obtain ⟨t, ht, hvalue⟩ := hname.lastIdent?_eq
        exact ⟨t, a, by rwa [List.append_nil], rfl, hvalue⟩
      · exact hlast.after p a

/-- The local name of an import is the token that spells it, read as an identifier. -/
theorem Use.localName_eq
    {i : Import}
    (h : Use part i) :
    ∃ t, lastIdent? part = some t ∧ i.localName = unescape t := by
  cases h with
  | @mk _ p q r use stop first more range alias? hpart huse hname hrange halias hstop =>
      have hstop' : lastIdent? [stop] = none := by
        simp [lastIdent?, identText?, hstop]
      have hlast : lastIdent? part =
          (lastIdent? r).or ((lastIdent? q).or ((lastIdent? p).or (identText? use))) := by
        rw [hpart, lastIdent?_append, hstop', lastIdent?_append, lastIdent?_append,
          lastIdent?_cons, Option.none_or]
      cases halias with
      | present halias =>
          cases halias with
          | mk _ hident =>
              obtain ⟨t, ht, hvalue⟩ := hident.lastIdent?_eq
              refine ⟨t, ?_, hvalue⟩
              rw [hlast, lastIdent?_cons, ht, Option.some_or, Option.some_or]
      | absent =>
          have hrange' : lastIdent? q = none := by
            cases hrange with
            | absent => rfl
            | present htext =>
                cases htext with
                | mk hl => simp [lastIdent?, identText?, hl]
          obtain ⟨t, last, ht, hgetLast, hvalue⟩ := hname.spellsLast
          refine ⟨t, ?_, ?_⟩
          · rw [hlast, hrange', ht]
            rfl
          · simp only [Import.localName, PackageName.last, List.getLastD_eq_getLast?,
              List.getLast?_map, hgetLast, Option.map_some, Option.getD_some]
            exact hvalue

/-- The qualifier of a name is the identifier that it begins with, as it is written. -/
theorem Name.qualifier_eq
    {name : TypeName}
    (h : Name part name)
    {t : String}
    (ht : firstIdent? part = some t) :
    name.qualifier = some t := by
  cases h with
  | @mk _ p q qualifier path hpart hqualifier hpath =>
      cases hqualifier with
      | present hqualifier =>
          cases hqualifier with
          | @mk l sep text hl hsep =>
              rw [hpart] at ht
              simpa [firstIdent?, identText?, hl] using ht
      | absent =>
          cases hpath with
          | mk hfirst hrest =>
              cases hfirst with
              | mk hl =>
                  rw [hpart] at ht
                  simp [firstIdent?, identText?, hl] at ht

end Tokens

section Files

theorem Many.exists_of_mem
    {α : Type}
    {P : Phrase α}
    {part : List Lexeme}
    {as : List α}
    (h : Many P part as)
    {a : α}
    (ha : a ∈ as) :
    ∃ p, P p a := by
  induction h with
  | nil => cases ha
  | @cons p q b bs hb _ ih =>
      rcases List.mem_cons.mp ha with rfl | ha
      · exact ⟨p, hb⟩
      · exact ih ha

theorem WholeFile.exists_use
    {doc : List String}
    {lexemes : List Lexeme}
    {tree : File}
    (h : WholeFile doc lexemes tree)
    {i : Import}
    (hi : i ∈ tree.imports) :
    ∃ part, Use part i := by
  obtain ⟨hitems⟩ := h
  obtain ⟨item, hitem, himport⟩ := List.mem_filterMap.mp hi
  obtain ⟨part, hpart⟩ := hitems.exists_of_mem hitem
  cases hpart with
  | imported huse =>
      obtain rfl := Option.some.inj himport
      exact ⟨part, huse⟩
  | decl => cases himport

/-- A text that is read without errors is a file of the grammar. -/
theorem wholeFile_of_parse
    {file : Nat}
    {source : String}
    {tree : File}
    (h : parse file source = (tree, [])) :
    WholeFile (Lexeme.ofSource file source).packageDoc (Lexeme.ofSource file source).lexemes
      tree := by
  have hread := readsExactly_ofLexemes file source.utf8ByteSize
    (Lexeme.ofSource file source).packageDoc (Lexeme.ofSource file source).lexemes
  obtain ⟨htree, herrors⟩ := Prod.mk.inj h
  obtain ⟨-, hclean⟩ := List.append_eq_nil_iff.mp herrors
  obtain ⟨tree', htree'⟩ := hread.1.mp hclean
  obtain rfl : tree' = tree := (hread.2 tree' htree').symm.trans htree
  exact htree'

end Files

end Grammar
end Tree

namespace Reference

section Imports

variable (files : List SourceFile)

/-- The import is accepted: it selects the package, and none before it with its local name selects
one. -/
structure Accepts
    (f : SourceFile)
    (i : Tree.Import)
    (target : Nat) : Prop where
  selects : selectImport (files.map (·.identity)) i = .ok target
  first : ∃ earlier later, f.tree.imports = earlier ++ i :: later ∧
    ∀ j ∈ earlier, j.localName = i.localName →
      ∃ e, selectImport (files.map (·.identity)) j = .error e

variable {files}
variable {package : Nat}
variable {f : SourceFile}
variable (hf : files[package]? = some f)

include hf

theorem Accepts.target?_eq
    {i : Tree.Import}
    {target : Nat}
    (h : Accepts files f i target) :
    target? files package i.localName = some target := by
  obtain ⟨earlier, later, himports, hearlier⟩ := h.first
  have hnone : (earlier.findSome? fun j =>
      if j.localName = i.localName then (selectImport (files.map (·.identity)) j).toOption
      else none) = none := by
    refine List.findSome?_eq_none_iff.mpr fun j hj => ?_
    by_cases hname : j.localName = i.localName
    · obtain ⟨e, he⟩ := hearlier j hj hname
      rw [if_pos hname, he]
      rfl
    · exact if_neg hname
  rw [target?, hf, Option.bind_some, himports, List.findSome?_append, hnone, Option.none_or,
    List.findSome?_cons, if_pos rfl, h.selects]
  rfl

theorem target?_eq_none
    {qualifier : String}
    (h : ∀ i ∈ f.tree.imports, i.localName ≠ qualifier) :
    target? files package qualifier = none := by
  rw [target?, hf, Option.bind_some]
  exact List.findSome?_eq_none_iff.mpr fun i hi => if_neg (h i hi)

end Imports

section Uses

variable {files : List SourceFile}
variable {package : Nat}
variable {f : SourceFile}

theorem resolve?_imported
    (hf : files[package]? = some f)
    {name : TypeName}
    {qualifier : String}
    {target : Nat}
    (hqualifier : name.qualifier = some qualifier)
    (htarget : target? files package qualifier = some target)
    (hpath : IsPath files target name.path) :
    ∃ i g, files[target]? = some g ∧ (Resolve.tableOf files g).Leads name.path i ∧
      ∀ index, Table.resolve? (files.map (Resolve.tableOf files)) package index name =
        some ⟨target, i⟩ := by
  obtain ⟨g, hg⟩ := exists_file_of_isPath files hpath
  obtain ⟨i, hleads⟩ := (isPath_iff files hg name.path).mp hpath
  refine ⟨i, g, hg, hleads, fun index => ?_⟩
  exact (resolve?_qualified files hf hqualifier index ⟨target, i⟩).mpr ⟨htarget, g, hg, hleads⟩

theorem resolve?_not_imported
    (hf : files[package]? = some f)
    {name : TypeName}
    {qualifier : String}
    (hqualifier : name.qualifier = some qualifier)
    (htarget : target? files package qualifier = none)
    (index : Nat) :
    Table.resolve? (files.map (Resolve.tableOf files)) package index name = none := by
  rw [Option.eq_none_iff_forall_ne_some]
  intro id hid
  rw [resolve?_qualified files hf hqualifier index id, htarget] at hid
  cases hid.1

theorem not_hasMeaning
    {name : TypeName}
    {qualifier : String}
    (hqualifier : name.qualifier = some qualifier)
    (htarget : target? files package qualifier = none)
    (here : List String) :
    ¬HasMeaning files package here name := by
  rintro ⟨target, path, hdenotes⟩
  cases hdenotes with
  | nearest hnone _ _ =>
      rw [hqualifier] at hnone
      cases hnone
  | imported hsome hfound _ =>
      obtain rfl := Option.some.inj (hqualifier.symm.trans hsome)
      rw [htarget] at hfound
      cases hfound

theorem mem_missing
    (hf : files[package]? = some f)
    {here : List String}
    {d : Tree.Decl}
    (hd : (here, d) ∈ declared files package)
    {name : TypeName}
    (hwritten : name ∈ d.body.typed.flatMap fun x => x.2.names)
    (hmeans : ¬HasMeaning files package here name) :
    name ∈ missing files := by
  refine List.mem_flatMap.mpr ⟨(f, package), List.mem_zipIdx_iff_getElem?.mpr hf, ?_⟩
  rw [declared, hf] at hd
  exact List.mem_flatMap.mpr ⟨(here, d), hd,
    List.mem_filter.mpr ⟨hwritten, decide_eq_true hmeans⟩⟩

/-- A name that means nothing is reported. -/
theorem error_mem_of_mem_missing
    {name : TypeName}
    (h : name ∈ missing files)
    (options : ResolveOptions) :
    ∃ errors, resolve options files = .error errors ∧ name.error ∈ errors := by
  have hmem : name.error ∈ (Resolve.schema options files).errors := by
    have hreferences := List.mem_map_of_mem (f := TypeName.error) h
    rw [← references_schema options files] at hreferences
    exact List.mem_of_mem_filter hreferences
  refine ⟨(Resolve.schema options files).errors, ?_, hmem⟩
  unfold resolve
  dsimp only
  split
  · rename_i hnil
    rw [hnil] at hmem
    cases hmem
  · rfl

end Uses

end Reference

/-- An import can be used by the token that spells its local name, in every declaration of the file,
unless the token is a keyword with an underscore in front: then the name is an unresolved
reference. -/
theorem import_used_by_token
    {files : List SourceFile}
    {package : Nat}
    {f : SourceFile}
    (hf : files[package]? = some f)
    {source : String}
    (hparse : Tree.parse f.file source = (f.tree, []))
    {i : Tree.Import}
    {target : Nat}
    (hi : Reference.Accepts files f i target)
    {part : List Lexeme}
    (huse : Tree.Grammar.Use part i)
    {written : List Lexeme}
    {name : TypeName}
    (hname : Tree.Grammar.Name written name)
    {t : String}
    (hlocal : Tree.Grammar.lastIdent? part = some t)
    (hqualifier : Tree.Grammar.firstIdent? written = some t)
    (hpath : Reference.IsPath files target name.path) :
    ((∀ word : Keyword, t ≠ "_" ++ word.spelling) →
      ∃ id : DeclId, id.package = target ∧
        (∀ options r, resolve options files = .ok r →
          id ∈ r.schema.ids ∧ r.schema.declPath id = name.path) ∧
        ∀ ctx : Convert.Context, ctx.tables = (Resolve.tables files).value →
          ctx.package = package → Convert.type ctx (.name name) = pure (.decl id)) ∧
      ((∃ word : Keyword, t = "_" ++ word.spelling) →
        (∀ ctx : Convert.Context, ctx.tables = (Resolve.tables files).value →
          ctx.package = package → (Convert.type ctx (.name name)).errors = [name.error]) ∧
        ∀ here d, (here, d) ∈ Reference.declared files package →
          name ∈ d.body.typed.flatMap (fun x => x.2.names) →
          ∀ options, ∃ errors, resolve options files = .error errors ∧ name.error ∈ errors) := by
  have hname' : name.qualifier = some t := hname.qualifier_eq hqualifier
  have hlocal' : i.localName = Tree.unescape t := by
    obtain ⟨t', ht', hvalue⟩ := huse.localName_eq
    obtain rfl : t' = t := Option.some.inj (ht'.symm.trans hlocal)
    exact hvalue
  constructor
  · intro hplain
    have htarget : Reference.target? files package t = some target := by
      rw [← Tree.unescape_of_ne hplain, ← hlocal']
      exact hi.target?_eq hf
    obtain ⟨index, g, hg, hleads, hfound⟩ := Reference.resolve?_imported hf hname' htarget hpath
    refine ⟨⟨target, index⟩, rfl, fun options r hr => ?_, fun ctx htables hpackage => ?_⟩
    · have hresolved := Resolve.resolvedFrom_of_resolve hr
      obtain ⟨e, he⟩ := hleads.exists_entry
      refine ⟨(Reference.mem_ids_iff hresolved _).mpr ⟨g, e, hg, he⟩, ?_⟩
      rw [Reference.declPath_eq hresolved hg]
      exact hleads.pathAt (Resolve.tableOf_forest files g)
    · refine Convert.type_name_found ctx ?_
      rw [htables, hpackage, Resolve.value_tables]
      exact hfound ctx.index
  · rintro ⟨word, rfl⟩
    have hnone : Reference.target? files package ("_" ++ word.spelling) = none := by
      refine Reference.target?_eq_none hf fun j hj => ?_
      obtain ⟨part', huse'⟩ := (Tree.Grammar.wholeFile_of_parse hparse).exists_use hj
      obtain ⟨t', -, hvalue⟩ := huse'.localName_eq
      rw [hvalue]
      exact Tree.unescape_ne_escaped t' word
    constructor
    · intro ctx htables hpackage
      refine Convert.errors_type_name_missing ctx ?_
      rw [htables, hpackage, Resolve.value_tables]
      exact Reference.resolve?_not_imported hf hname' hnone ctx.index
    · intro here d hd hwritten options
      exact Reference.error_mem_of_mem_missing
        (Reference.mem_missing hf hd hwritten (Reference.not_hasMeaning hname' hnone here)) options

namespace Sample

open Tree.Grammar

/-- A file with one type. -/
def library : SourceFile :=
  { file := 0
    identity := ⟨⟨["foo"]⟩, none⟩
    tree :=
      { doc := []
        imports := []
        decls := [⟨[], [], ⟨"B", default⟩, .type [], default⟩] } }

/-- A text that imports the package under a local name and uses it by the same token. -/
def importing
    (t : String) :
    String :=
  "use foo as " ++ t ++ ";\ntype A \x7b x: " ++ t ++ "::B; \x7d"

/-- The lexemes of the import, with a token of five letters. -/
def useLexemes
    (t : String) :
    List Lexeme :=
  [⟨.keyword .useWord, ⟨1, 0, 3⟩, []⟩, ⟨.ident "foo", ⟨1, 4, 7⟩, []⟩,
    ⟨.keyword .asWord, ⟨1, 8, 10⟩, []⟩, ⟨.ident t, ⟨1, 11, 16⟩, []⟩,
    ⟨.punctuation .semicolon, ⟨1, 16, 17⟩, []⟩]

/-- The import. -/
def importOf
    (t : String) :
    Tree.Import :=
  { package := ⟨⟨["foo"]⟩, ⟨1, 4, 7⟩⟩
    range := none
    alias? := some ⟨Tree.unescape t, ⟨1, 11, 16⟩⟩
    span := ⟨1, 0, 17⟩ }

/-- The lexemes of the name that uses it. -/
def nameLexemes
    (t : String) :
    List Lexeme :=
  [⟨.ident t, ⟨1, 30, 35⟩, []⟩, ⟨.punctuation .colonColon, ⟨1, 35, 37⟩, []⟩,
    ⟨.typeIdent "B", ⟨1, 37, 38⟩, []⟩]

/-- The name. -/
def nameOf
    (t : String) :
    TypeName :=
  { qualifier := some t
    path := ["B"]
    span := ⟨1, 30, 38⟩ }

/-- The file with the text, for a token of five letters. -/
def importer
    (t : String) :
    SourceFile :=
  { file := 1
    identity := ⟨⟨["main"]⟩, none⟩
    tree :=
      { doc := []
        imports := [importOf t]
        decls :=
          [⟨[], [], ⟨"A", ⟨1, 23, 24⟩⟩,
            .type [.field ⟨[], ⟨"x", ⟨1, 27, 28⟩⟩, false, ⟨.name (nameOf t), ⟨1, 30, 38⟩⟩, none,
              ⟨1, 27, 39⟩⟩],
            ⟨1, 18, 41⟩⟩] } }

theorem use_useLexemes
    (t : String) :
    Use (useLexemes t) (importOf t) := by
  have hname : Separated .fullStop Ident [⟨.ident "foo", ⟨1, 4, 7⟩, []⟩]
      [⟨Tree.unescape "foo", ⟨1, 4, 7⟩⟩] :=
    Separated.mk (Ident.mk rfl) Many.nil
  have halias : Maybe (Led (.keyword .asWord) Ident)
      [⟨.keyword .asWord, ⟨1, 8, 10⟩, []⟩, ⟨.ident t, ⟨1, 11, 16⟩, []⟩]
      (some ⟨Tree.unescape t, ⟨1, 11, 16⟩⟩) :=
    Maybe.present (Led.mk rfl (Ident.mk rfl))
  have hpart : useLexemes t =
      ⟨.keyword .useWord, ⟨1, 0, 3⟩, []⟩ :: [⟨.ident "foo", ⟨1, 4, 7⟩, []⟩] ++ [] ++
        [⟨.keyword .asWord, ⟨1, 8, 10⟩, []⟩, ⟨.ident t, ⟨1, 11, 16⟩, []⟩] ++
        [⟨.punctuation .semicolon, ⟨1, 16, 17⟩, []⟩] :=
    rfl
  exact Use.mk hpart rfl hname Maybe.absent halias rfl

theorem name_nameLexemes
    (t : String) :
    Name (nameLexemes t) (nameOf t) := by
  have hqualifier : Maybe Qualifier
      [⟨.ident t, ⟨1, 30, 35⟩, []⟩, ⟨.punctuation .colonColon, ⟨1, 35, 37⟩, []⟩] (some t) :=
    Maybe.present (Qualifier.mk rfl rfl)
  have hpath : Separated .colonColon TypeIdent [⟨.typeIdent "B", ⟨1, 37, 38⟩, []⟩]
      [⟨"B", ⟨1, 37, 38⟩⟩] :=
    Separated.mk (TypeIdent.mk rfl) Many.nil
  exact Name.mk rfl hqualifier hpath

theorem isPath_library
    (t : String) :
    Reference.IsPath [library, importer t] 0 ["B"] := by
  rw [← Reference.contains_declared_iff]
  generalize importer t = user
  with_unfolding_all rfl

theorem selectImport_importOf
    (t : String) :
    selectImport [⟨⟨["foo"]⟩, none⟩, ⟨⟨["main"]⟩, none⟩] (importOf t) = .ok 0 := by
  unfold importOf
  generalize Tree.unescape t = name
  rfl

theorem parse_importing_other :
    Tree.parse 1 (importing "other") = ((importer "other").tree, []) := by
  with_unfolding_all rfl

theorem parse_importing_type :
    Tree.parse 1 (importing "_type") = ((importer "_type").tree, []) := by
  with_unfolding_all rfl

theorem resolve_importer_type :
    resolve options [library, importer "_type"] = .error [(nameOf "_type").error] := by
  with_unfolding_all rfl

theorem accepts_importOf
    (t : String) :
    Reference.Accepts [library, importer t] (importer t) (importOf t) 0 :=
  ⟨selectImport_importOf t, [], [], rfl, fun _ hj => absurd hj List.not_mem_nil⟩

end Sample

theorem import_used_by_token_other :
    ∃ id : DeclId, id.package = 0 ∧ ∀ ctx : Convert.Context,
      ctx.tables = (Resolve.tables [Sample.library, Sample.importer "other"]).value →
      ctx.package = 1 → Convert.type ctx (.name (Sample.nameOf "other")) = pure (.decl id) := by
  have hplain : ∀ word : Keyword, "other" ≠ "_" ++ word.spelling := by
    intro word heq
    have hhead : "other".toList.head? = some '_' := by
      rw [heq, Tree.toList_escaped]
      rfl
    exact absurd hhead (by decide)
  have hf : [Sample.library, Sample.importer "other"][1]? = some (Sample.importer "other") := rfl
  obtain ⟨id, hid, -, hfound⟩ :=
    (import_used_by_token hf Sample.parse_importing_other
      (Sample.accepts_importOf "other")
      (Sample.use_useLexemes "other") (Sample.name_nameLexemes "other") rfl rfl
      (Sample.isPath_library "other")).1 hplain
  exact ⟨id, hid, hfound⟩

/-- An import whose local name is spelled `_type` cannot be used by this token. -/
theorem exists_unusable_import :
    Tree.parse 1 (Sample.importing "_type") = ((Sample.importer "_type").tree, []) ∧
      Reference.Accepts [Sample.library, Sample.importer "_type"] (Sample.importer "_type")
        (Sample.importOf "_type") 0 ∧
      Tree.Grammar.Use (Sample.useLexemes "_type") (Sample.importOf "_type") ∧
      Tree.Grammar.lastIdent? (Sample.useLexemes "_type") = some "_type" ∧
      Tree.Grammar.Name (Sample.nameLexemes "_type") (Sample.nameOf "_type") ∧
      Tree.Grammar.firstIdent? (Sample.nameLexemes "_type") = some "_type" ∧
      Reference.IsPath [Sample.library, Sample.importer "_type"] 0 (Sample.nameOf "_type").path ∧
      resolve Sample.options [Sample.library, Sample.importer "_type"] =
        .error [(Sample.nameOf "_type").error] :=
  ⟨Sample.parse_importing_type, Sample.accepts_importOf _,
    Sample.use_useLexemes _, rfl, Sample.name_nameLexemes _, rfl, Sample.isPath_library _,
    Sample.resolve_importer_type⟩

end Schemata
