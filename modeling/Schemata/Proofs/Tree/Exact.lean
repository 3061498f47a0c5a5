import Schemata.Proofs.Tree.Completeness
import Mathlib

/-!
# The parser reads exactly the grammar

Declarations are read as the grammar says, by the levels that are left, and so
are files: each item is followed by one that begins with a keyword or an
attribute, or by nothing, so nothing prolongs it.

**Results.**
* `ofLexemes_eq_iff`: lexemes are read as items without errors exactly when they
  derive them.
* `parse_exact`: a text without broken tokens is read without errors exactly
  when it is in the grammar, and its tree is the one that the grammar gives.
-/

namespace Schemata
namespace Tree

open Grammar

section Bodies

variable {decl : Reader Decl}
variable {D : Phrase Decl}
variable (hdecl : Complete decl D [.punctuation .semicolon])
variable (hstarts : Starts D (beginsDecl · = true))
variable (levels : Nat)
include hdecl hstarts

theorem readMember_complete :
    Complete (readMember decl levels) (MemberOver D (TypeWithin levels))
      [.punctuation .semicolon] := by
  intro c part member c' hpass h havoids
  rw [readMember, get_bind]
  cases h with
  | field h =>
      have hread := readField_complete levels hpass h Cursor.avoids_nil
      obtain ⟨l, rest, rfl, name, hl⟩ := starts_fieldLine _ h
      rw [hpass.peek?, hl]
      exact bind_of_ok _ hread
  | decl h =>
      have hread := hdecl hpass h havoids
      obtain ⟨l, rest, rfl, hl⟩ := hstarts h
      have hfront := hpass.peek?
      generalize c.peek? = front at hfront
      split
      · rw [← Option.some.inj hfront] at hl
        cases hl
      · rw [Option.some.inj hfront, if_pos hl]
        exact bind_of_ok _ hread
      · cases hfront

omit hdecl hstarts in
/-- What begins a member, a case or an endpoint neither closes a body nor ends a tuple. -/
theorem not_mem_ends
    {symbol : Terminal}
    (h : IsIdent symbol ∨ IsTypeIdent symbol ∨ beginsDecl symbol = true) :
    symbol ∉ [Terminal.punctuation .closeBrace, .punctuation .semicolon] := by
  rcases h with ⟨name, rfl⟩ | ⟨name, rfl⟩ | h
  · simp
  · simp
  · simp only [List.mem_cons, List.not_mem_nil, or_false, not_or]
    constructor
    · rintro rfl
      cases h
    · rintro rfl
      cases h

theorem readMembers_complete :
    Complete (readMembers decl levels) (Braced (MemberOver D (TypeWithin levels))) [] := by
  refine braced_complete (readMember_complete hdecl hstarts levels)
    (starts_memberOver hstarts _) ?_ (by simp)
  rintro symbol (h | h)
  · exact not_mem_ends (.inl h)
  · exact not_mem_ends (.inr (.inr h))

theorem readTupleMembers_complete :
    Complete (readTupleMembers decl levels) (TupleBody D (TypeWithin levels))
      [.punctuation .semicolon] := by
  intro c part members c' hpass h havoids
  rw [readTupleMembers, eatMark]
  cases h with
  | inline hfields hended =>
      cases hfields with
      | mk hl hfields hr =>
          obtain ⟨c₃, hpass, hp₄⟩ := Cursor.passes_append.mp hpass
          rw [List.cons_append] at hpass
          obtain ⟨c₁, hp₁, hpass⟩ := Cursor.passes_cons.mp hpass
          obtain ⟨c₂, hp₂, hp₃⟩ := Cursor.passes_append.mp hpass
          rw [bind_of_ok _ (eat_of_passes hl hp₁), if_pos rfl,
            bind_of_ok _ (commaList_complete (readFieldParts_complete levels)
              (starts_fieldParts _) (by simp) (by simp) hfields hp₂ (hr ▸ hp₃.peek?)),
            bind_of_ok _ (expect_of_passes _ hr hp₃), eatMark,
            bind_of_ok _ (eat_complete _ hp₄ hended havoids)]
          rfl
  | braced h =>
      have hne : c.peek? ≠ some (.punctuation .openParen) := by
        cases h with
        | mk hl _ _ =>
            rw [List.cons_append] at hpass
            rw [hpass.peek?, hl]
            simp
      rw [bind_of_ok _ (eat_of_ne hne)]
      exact readMembers_complete hdecl hstarts levels hpass h Cursor.avoids_nil

theorem readSubTypeMembers_complete :
    Complete (readSubTypeMembers decl levels) (SubTypeBody D (TypeWithin levels)) [] := by
  intro c part members c' hpass h _
  rw [readSubTypeMembers, get_bind]
  cases h with
  | braced h =>
      have hopen : c.isAt (.punctuation .openBrace) = true := by
        cases h with
        | mk hl _ _ =>
            rw [List.cons_append] at hpass
            simp [Cursor.isAt, hpass.peek?, hl]
      rw [if_pos hopen]
      exact readMembers_complete hdecl hstarts levels hpass h Cursor.avoids_nil
  | empty hl =>
      rw [hpass.isAt, if_neg (by simp [hl]), bind_of_ok _ (expect_of_passes _ hl hpass)]
      rfl

theorem readSubType_complete :
    Complete (readSubType decl levels) (SubTypeOver D (TypeWithin levels)) [] := by
  intro c part found c' hpass h _
  have hne := (starts_subTypeOver _ _).ne_nil h
  have hspan := spanOf_of_passes hpass hne
  have hdoc := docOf_of_passes hpass hne
  cases h with
  | mk hpart hname halias hmembers =>
      subst hpart
      obtain ⟨c₂, hpass, hp₃⟩ := Cursor.passes_append.mp hpass
      obtain ⟨c₁, hp₁, hp₂⟩ := Cursor.passes_append.mp hpass
      have hmid : c₂.Avoids [.keyword .asWord] := by
        cases hmembers with
        | braced h =>
            cases h with
            | mk hl _ _ =>
                rw [List.cons_append] at hp₃
                exact hp₃.avoids (by simp [hl])
        | empty hl =>
            exact hp₃.avoids (by simp [hl])
      have hread := readTypeIdent_clearDoc.mpr
        (readTypeIdent_complete "sub-type name" hp₁ hname Cursor.avoids_nil)
      rw [readSubType, takeDoc_bind, bind_of_ok _ hread,
        bind_of_ok _ (after_complete _ readLiteral_complete hp₂ halias hmid),
        bind_of_ok _ (readSubTypeMembers_complete hdecl hstarts levels hp₃ hmembers
          Cursor.avoids_nil), get_bind, hspan, hdoc, hname.span hp₁]
      rfl

theorem readInterfaceItem_complete :
    Complete (readInterfaceItem decl levels) (InterfaceLine D (TypeWithin levels))
      [.punctuation .semicolon] := by
  intro c part item c' hpass h havoids
  rw [readInterfaceItem, get_bind]
  cases h with
  | subType h =>
      have hread := readSubType_complete hdecl hstarts levels hpass h Cursor.avoids_nil
      obtain ⟨l, rest, rfl, name, hl⟩ := starts_subTypeOver _ _ h
      rw [hpass.peek?, hl]
      exact bind_of_ok _ hread
  | member h =>
      have hread := readMember_complete hdecl hstarts levels hpass h havoids
      obtain ⟨l, rest, rfl, hl⟩ := starts_memberOver hstarts _ h
      have hfront := hpass.peek?
      generalize c.peek? = front at hfront
      split
      · rename_i name
        rw [← Option.some.inj hfront] at hl
        rcases hl with ⟨other, hother⟩ | hl
        · cases hother
        · cases hl
      · exact bind_of_ok _ hread

theorem readServiceItem_complete :
    Complete (readServiceItem decl levels) (ServiceLine D (TypeWithin levels))
      [.punctuation .semicolon] := by
  intro c part item c' hpass h havoids
  rw [readServiceItem, get_bind]
  cases h with
  | endpoint h =>
      have hread := readEndpoint_complete levels hpass h Cursor.avoids_nil
      obtain ⟨l, rest, rfl, name, hl⟩ := starts_endpointLine _ h
      rw [hpass.peek?, hl]
      exact bind_of_ok _ hread
  | decl h =>
      have hread := hdecl hpass h havoids
      obtain ⟨l, rest, rfl, hl⟩ := hstarts h
      have hfront := hpass.peek?
      generalize c.peek? = front at hfront
      split
      · rw [← Option.some.inj hfront] at hl
        cases hl
      · rw [Option.some.inj hfront, if_pos hl]
        exact bind_of_ok _ hread
      · cases hfront

theorem readBody_complete
    (word : DeclWord) :
    Complete (readBody decl levels word) (BodyOver D (TypeWithin levels) word)
      [.punctuation .semicolon] := by
  intro c part body c' hpass h havoids
  cases h with
  | type h =>
      rw [readBody, bind_of_ok _ (readMembers_complete hdecl hstarts levels hpass h
        Cursor.avoids_nil)]
      rfl
  | tuple h =>
      rw [readBody, bind_of_ok _ (readTupleMembers_complete hdecl hstarts levels hpass h havoids)]
      rfl
  | interface h =>
      have hread := braced_complete (readInterfaceItem_complete hdecl hstarts levels)
        (starts_interfaceLine hstarts _) (fun _ => not_mem_ends) (by simp) hpass h
        Cursor.avoids_nil
      rw [readBody, bind_of_ok _ hread]
      rfl
  | enum htype hmembers =>
      obtain ⟨c₁, hp, hq⟩ := Cursor.passes_append.mp hpass
      have hmid : c₁.Avoids [.keyword .asWord, .punctuation .colonColon] := by
        cases hmembers with
        | mk hl _ _ =>
            rw [List.cons_append] at hq
            exact hq.avoids (by simp [hl])
      have hread := braced_complete readEnumMember_complete starts_enumLine
        (by rintro _ ⟨name, rfl⟩; simp) (by simp) hq hmembers Cursor.avoids_nil
      rw [readBody, bind_of_ok _ (after_complete _ (readType_complete levels) hp htype hmid),
        bind_of_ok _ hread]
      rfl
  | service h =>
      have hread := braced_complete (readServiceItem_complete hdecl hstarts levels)
        (starts_serviceLine hstarts _)
        (fun _ hl => not_mem_ends (hl.imp_right Or.inr)) (by simp) hpass h Cursor.avoids_nil
      rw [readBody, bind_of_ok _ hread]
      rfl

end Bodies

section Declarations

theorem readDeclWord_complete :
    Complete readDeclWord Word [] := by
  intro c part word c' hpass h _
  cases h with
  | mk hl hword =>
      rw [readDeclWord, get_bind, hpass.peek?, hl]
      dsimp only
      rw [hword]
      dsimp only
      rw [modify_bind, ← hpass.bump]
      rfl

/-- The head of a declaration, from its attributes to its keyword. -/
theorem head_complete
    {c c' : Cursor}
    {p q : List Lexeme}
    {attributes : List Attribute}
    {word : DeclWord}
    (hpass : c.Passes (p ++ q) c')
    (hattributes : Many HashAttribute p attributes)
    (hword : Word q word) :
    ∃ mid, readAttributes c.clearDoc = .ok attributes mid ∧ readDeclWord mid = .ok word c' := by
  obtain ⟨mid, hp, hq⟩ := Cursor.passes_append.mp hpass
  have hread := readDeclWord_complete hq hword Cursor.avoids_nil
  obtain ⟨l, rest, rfl, -, hl⟩ := starts_word hword
  have hmid : mid.Avoids [.punctuation .hash] := hq.avoids (by simpa using hl)
  cases hattributes with
  | nil =>
      cases hp
      refine ⟨c.clearDoc, ?_, readDeclWord_clearDoc.mpr hread⟩
      exact readAttributes_of_ne (by simpa using hmid.ne)
  | cons hfirst hrest =>
      obtain ⟨hash, tail, rfl, hhash⟩ := starts_hashAttribute hfirst
      refine ⟨mid, ?_, hread⟩
      rw [readAttributes_clearDoc (hhash ▸ hp.peek?)]
      exact readAttributes_complete hp (.cons hfirst hrest) hmid

theorem readDeclWith_complete
    {decl : Reader Decl}
    {D : Phrase Decl}
    (hdecl : Complete decl D [.punctuation .semicolon])
    (hstarts : Starts D (beginsDecl · = true))
    (levels : Nat) :
    Complete (readDeclWith decl levels) (DeclOver D (TypeWithin levels))
      [.punctuation .semicolon] := by
  intro c part found c' hpass h havoids
  have hne := (starts_declOver _ _).ne_nil h
  have hspan := spanOf_of_passes hpass hne
  have hdoc := docOf_of_passes hpass hne
  cases h with
  | mk hpart hattributes hword hname hbody =>
      subst hpart
      obtain ⟨c₃, hpass, hp₄⟩ := Cursor.passes_append.mp hpass
      obtain ⟨c₂, hpass, hp₃⟩ := Cursor.passes_append.mp hpass
      obtain ⟨c₁, hread, hkeyword⟩ := head_complete hpass hattributes hword
      rw [readDeclWith, takeDoc_bind, get_bind, bind_of_ok _ hread, bind_of_ok _ hkeyword,
        bind_of_ok _ (readTypeIdent_complete _ hp₃ hname Cursor.avoids_nil),
        bind_of_ok _ (readBody_complete hdecl hstarts levels _ hp₄ hbody havoids), get_bind,
        Cursor.span_clearDoc, hspan, hdoc]
      rfl

/-- A declaration, by the levels that are left. -/
theorem readDecl_complete
    (levels : Nat) :
    Complete (readDecl levels) (DeclWithin levels) [.punctuation .semicolon] := by
  induction levels with
  | zero =>
      intro c part d c' _ h
      exact h.elim
  | succ levels ih =>
      exact readDeclWith_complete ih (starts_decl levels) levels

theorem readItem_complete :
    Complete readItem FileItem [.punctuation .semicolon] := by
  intro c part item c' hpass h havoids
  rw [readItem, get_bind]
  cases h with
  | imported h =>
      have hread := readImport_complete hpass h Cursor.avoids_nil
      obtain ⟨l, rest, rfl, hl⟩ := starts_use h
      rw [hpass.isAt, if_pos (by simp [hl]), bind_of_ok _ hread]
      rfl
  | decl h =>
      have hread := readDecl_complete maxNesting hpass h havoids
      obtain ⟨l, rest, rfl, hl⟩ := starts_decl _ h
      have hne : l.symbol ≠ .keyword .useWord := by
        intro heq
        rw [heq] at hl
        cases hl
      rw [hpass.isAt, if_neg (by simpa using hne), bind_of_ok _ hread]
      rfl

end Declarations

section Files

/-- What begins an item does not end a tuple. -/
theorem not_mem_semicolon
    {symbol : Terminal}
    (h : beginsDecl symbol = true ∨ symbol = .keyword .useWord) :
    symbol ∉ [Terminal.punctuation .semicolon] := by
  rw [List.mem_singleton]
  rintro rfl
  rcases h with h | h
  · cases h
  · cases h

/-- In front of items up to the end, nothing prolongs what comes before. -/
theorem avoids_of_items
    {c : Cursor}
    {items : List Item}
    (h : Many FileItem c.rest items) :
    c.Avoids [.punctuation .semicolon] := by
  obtain ⟨c', hpass, hrest⟩ := Cursor.exists_passes (c.rest.append_nil).symm
  refine h.avoids starts_fileItem (fun _ => not_mem_semicolon) hpass ?_
  intro symbol _ hpeek
  rw [Cursor.peek?, hrest] at hpeek
  cases hpeek

theorem readItems_complete
    {c : Cursor}
    {items : List Item}
    (h : Many FileItem c.rest items)
    (rounds : Nat)
    (hrounds : c.rest.length < rounds) :
    readItems rounds c = items.map .ok := by
  generalize hpart : c.rest = part at h hrounds
  induction h generalizing c rounds with
  | nil =>
      obtain ⟨rounds, rfl⟩ : ∃ n, rounds = n + 1 := ⟨rounds - 1, by omega⟩
      rw [readItems, if_pos (by simp [hpart])]
      rfl
  | @cons p q item items hitem hrest ih =>
      obtain ⟨mid, hpass, hmid⟩ := Cursor.exists_passes hpart
      obtain ⟨rounds, rfl⟩ : ∃ n, rounds = n + 1 := ⟨rounds - 1, by omega⟩
      -- the next item, if there is one, does not begin with the semicolon of a tuple
      have havoids := avoids_of_items (hmid ▸ hrest)
      obtain ⟨l, rest, rfl, -⟩ := starts_fileItem hitem
      rw [List.length_append, List.length_cons] at hrounds
      rw [readItems, if_neg (by simp [hpart]), readItem_complete hpass hitem havoids]
      dsimp only
      rw [ih rounds hmid (by omega), List.map_cons]

/-- Readings without errors derive their items. -/
theorem readItems_sound
    {c : Cursor}
    {items : List Item}
    (rounds : Nat)
    (hrounds : c.rest.length < rounds)
    (h : readItems rounds c = items.map .ok) :
    Many FileItem c.rest items := by
  induction rounds generalizing c items with
  | zero =>
      simp at hrounds
  | succ rounds ih =>
      rw [readItems] at h
      split at h
      · rename_i hempty
        rw [List.isEmpty_iff.mp hempty, List.map_eq_nil_iff.mp h.symm]
        exact .nil
      · cases hread : readItem c with
        | error e next =>
            rw [hread] at h
            cases items with
            | nil =>
                cases h
            | cons item items =>
                cases h
        | ok item next =>
            rw [hread] at h
            cases items with
            | nil =>
                cases h
            | cons first items =>
                simp only [List.map_cons, List.cons.injEq, Except.ok.injEq] at h
                obtain ⟨rfl, h⟩ := h
                obtain ⟨part, hpass, hitem⟩ := readItem_sound hread
                obtain ⟨l, rest, rfl, -⟩ := starts_fileItem hitem
                have hlength := congrArg List.length hpass.rest
                rw [List.length_append, List.length_cons] at hlength
                rw [hpass.rest]
                exact .cons hitem (ih (by omega) h)

theorem ofLexemes_eq_iff
    (file size : Nat)
    (lexemes : List Lexeme)
    (items : List Item) :
    ofLexemes file size lexemes = items.map .ok ↔ Many FileItem lexemes items := by
  constructor
  · intro h
    exact readItems_sound _ (by simp) h
  · intro h
    exact readItems_complete h _ (by simp)

/-- A reading without errors consists of items. -/
theorem exists_items
    {found : List (Except ParseError Item)}
    (h : found.filterMap Item.error? = []) :
    ∃ items, found = List.map .ok items := by
  induction found with
  | nil =>
      exact ⟨[], rfl⟩
  | cons first found ih =>
      cases first with
      | error e =>
          cases h
      | ok item =>
          obtain ⟨items, rfl⟩ := ih h
          exact ⟨item :: items, rfl⟩

/-- The tree of the items of a file, and its errors. -/
def assemble
    (packageDoc : List String)
    (found : List (Except ParseError Item)) :
    File × List ParseError :=
  ({ doc := packageDoc
     imports := found.filterMap Item.import?
     decls := found.filterMap Item.decl? },
    found.filterMap Item.error?)

/-- There are no errors exactly for files of the grammar, and their tree is the one that the
grammar gives. -/
def ReadsExactly
    (packageDoc : List String)
    (lexemes : List Lexeme)
    (result : File × List ParseError) : Prop :=
  (result.2 = [] ↔ ∃ tree, WholeFile packageDoc lexemes tree) ∧
    ∀ tree, WholeFile packageDoc lexemes tree → result.1 = tree

theorem assemble_items
    (packageDoc : List String)
    (items : List Item) :
    assemble packageDoc (items.map .ok) =
      ({ doc := packageDoc
         imports := items.filterMap fun item => Item.import? (.ok item)
         decls := items.filterMap fun item => Item.decl? (.ok item) }, []) := by
  simp [assemble, List.filterMap_map, Function.comp_def, Item.error?]

theorem readsExactly_ofLexemes
    (file size : Nat)
    (packageDoc : List String)
    (lexemes : List Lexeme) :
    ReadsExactly packageDoc lexemes (assemble packageDoc (ofLexemes file size lexemes)) := by
  have hderived : ∀ tree, WholeFile packageDoc lexemes tree →
      assemble packageDoc (ofLexemes file size lexemes) = (tree, []) := by
    rintro _ ⟨hitems⟩
    rw [(ofLexemes_eq_iff file size lexemes _).mpr hitems, assemble_items]
  refine ⟨⟨fun hclean => ?_, ?_⟩, fun tree htree => by rw [hderived tree htree]⟩
  · obtain ⟨items, hitems⟩ := exists_items hclean
    exact ⟨_, .mk ((ofLexemes_eq_iff file size lexemes items).mp hitems)⟩
  · rintro ⟨tree, htree⟩
    rw [hderived tree htree]

end Files

/-- The parser accepts exactly its grammar: any lexemes, and those of a text without broken
tokens. -/
theorem parse_exact :
    (∀ file size packageDoc lexemes,
        ReadsExactly packageDoc lexemes (assemble packageDoc (ofLexemes file size lexemes))) ∧
      ∀ file source, (Lexeme.ofSource file source).errors = [] →
        ReadsExactly (Lexeme.ofSource file source).packageDoc
          (Lexeme.ofSource file source).lexemes (parse file source) := by
  refine ⟨readsExactly_ofLexemes, fun file source hclean => ?_⟩
  have hparse : parse file source =
      assemble (Lexeme.ofSource file source).packageDoc
        (ofLexemes file source.utf8ByteSize (Lexeme.ofSource file source).lexemes) := by
    simp only [parse, assemble, hclean, List.nil_append]
  rw [hparse]
  exact readsExactly_ofLexemes _ _ _ _

/-- A tuple with a documented field is in the grammar. -/
theorem parse_exact_tuple :
    (Lexeme.ofSource 0 "tuple A (/// x\n _type: u32,);").errors = [] ∧
      ∃ tree, WholeFile (Lexeme.ofSource 0 "tuple A (/// x\n _type: u32,);").packageDoc
        (Lexeme.ofSource 0 "tuple A (/// x\n _type: u32,);").lexemes tree := by
  have hclean : (Lexeme.ofSource 0 "tuple A (/// x\n _type: u32,);").errors = [] := by
    decide +kernel
  have hread : (parse 0 "tuple A (/// x\n _type: u32,);").2 = [] := by
    decide +kernel
  exact ⟨hclean, (parse_exact.2 0 _ hclean).1.mp hread⟩

end Tree
end Schemata
