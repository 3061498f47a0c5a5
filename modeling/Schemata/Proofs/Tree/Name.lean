import Schemata.Proofs.Naming.Words
import Schemata.Proofs.Resolve.Scope
import Schemata.Proofs.Token.Tiling
import Schemata.Proofs.Tree.Reading

/-!
# Names of declarations

The name of a declaration is the text of a token that begins with a capital
letter and goes on with letters, digits and underscores.  This holds at every
depth, since the declarations nested in a declaration are phrases over some of
its lexemes.

**Results.** `named_of_parse`, `named_of_mem_listing`.
-/

namespace Schemata

/-- The text matches the rule of type names. -/
def IsTypeName
    (name : String) : Prop :=
  name.toList ∈ Token.Rule.typeIdent.language

theorem IsTypeName.isIdentText
    {name : String}
    (h : IsTypeName name) :
    Naming.IsIdentText name := by
  obtain ⟨c, rest, hname, hc, hrest⟩ := Token.mem_oneOf_mul.mp h
  intro d hd
  rw [hname] at hd
  rcases List.mem_cons.mp hd with rfl | hd
  · simp [Naming.isIdentChar, Char.isAlphanum, Char.isAlpha, hc]
  · have hword := Token.mem_star_oneOf.mp hrest d hd
    simpa [Naming.isIdentChar, Token.isWordChar] using hword

theorem IsTypeName.toList_ne_nil
    {name : String}
    (h : IsTypeName name) :
    name.toList ≠ [] := by
  obtain ⟨c, rest, hname, -⟩ := Token.mem_oneOf_mul.mp h
  rw [hname]
  exact List.cons_ne_nil c rest

namespace Tree

open Grammar

/-- The names of a declaration and of all declarations in it have the property. -/
inductive Decl.Named
    (P : String → Prop) :
    Decl → Prop
  | mk
      {d : Decl}
      (hname : P d.name.value)
      (hnested : ∀ n ∈ d.body.nested, Decl.Named P n) :
      Decl.Named P d

section Nested

variable {α : Type}
variable {P : Phrase α}
variable {part : List Lexeme}

theorem Grammar.Many.exists_part
    {xs : List α}
    (h : Many P part xs)
    {x : α}
    (hx : x ∈ xs) :
    ∃ sub ⊆ part, P sub x := by
  induction h with
  | nil =>
      cases hx
  | cons hfirst _ ih =>
      rcases List.mem_cons.mp hx with rfl | hx
      · exact ⟨_, List.subset_append_left _ _, hfirst⟩
      · obtain ⟨sub, hsub, hP⟩ := ih hx
        exact ⟨sub, List.subset_append_of_subset_right _ hsub, hP⟩

theorem Grammar.Enclosed.exists_part
    {opening closing : Punctuation}
    {x : α}
    (h : Enclosed opening closing P part x) :
    ∃ sub ⊆ part, P sub x := by
  cases h with
  | mk _ h _ =>
      exact ⟨_, List.subset_append_of_subset_left _ (List.subset_cons_self _ _), h⟩

/-- What stands in braces is a phrase over some of the lexemes. -/
theorem exists_part_of_braced
    {xs : List α}
    (h : Braced P part xs)
    {x : α}
    (hx : x ∈ xs) :
    ∃ sub ⊆ part, P sub x := by
  obtain ⟨inner, hinner, hmany⟩ := Grammar.Enclosed.exists_part h
  obtain ⟨sub, hsub, hP⟩ := hmany.exists_part hx
  exact ⟨sub, List.Subset.trans hsub hinner, hP⟩

theorem Member.mem_decls_iff
    {members : List (Member Decl)}
    {d : Decl} :
    d ∈ Member.decls members ↔ .decl d ∈ members := by
  induction members with
  | nil =>
      simp [Member.decls]
  | cons m members ih =>
      cases m with
      | field f =>
          simp [Member.decls, ih]
      | decl d' =>
          simp [Member.decls, ih]

variable {decl : Phrase Decl}
variable {type : Phrase TypeExpr}

theorem exists_part_of_members
    {members : List (Member Decl)}
    (h : Braced (MemberOver decl type) part members)
    {d : Decl}
    (hd : d ∈ Member.decls members) :
    ∃ sub ⊆ part, decl sub d := by
  obtain ⟨sub, hsub, hmember⟩ := exists_part_of_braced h (Member.mem_decls_iff.mp hd)
  cases hmember with
  | decl hdecl =>
      exact ⟨sub, hsub, hdecl⟩

theorem exists_part_of_subType
    {s : SubType Decl}
    (h : SubTypeOver decl type part s)
    {d : Decl}
    (hd : d ∈ Member.decls s.members) :
    ∃ sub ⊆ part, decl sub d := by
  cases h with
  | mk hpart _ _ hmembers =>
      cases hmembers with
      | braced h =>
          obtain ⟨sub, hsub, hdecl⟩ := exists_part_of_members h hd
          refine ⟨sub, ?_, hdecl⟩
          rw [hpart]
          exact List.subset_append_of_subset_right _ hsub
      | empty _ =>
          cases hd

/-- The declarations nested in a body are phrases over some of its lexemes. -/
theorem exists_part_of_body
    {word : DeclWord}
    {body : Body Decl}
    (h : BodyOver decl type word part body)
    {d : Decl}
    (hd : d ∈ body.nested) :
    ∃ sub ⊆ part, decl sub d := by
  cases h with
  | type h =>
      exact exists_part_of_members h hd
  | tuple h =>
      cases h with
      | «inline» _ _ =>
          obtain ⟨f, -, hf⟩ := List.mem_map.mp (Member.mem_decls_iff.mp hd)
          cases hf
      | braced h =>
          exact exists_part_of_members h hd
  | interface h =>
      rcases List.mem_append.mp hd with hd | hd
      · obtain ⟨item, hitem, hpick⟩ := List.mem_filterMap.mp (Member.mem_decls_iff.mp hd)
        obtain ⟨sub, hsub, hline⟩ := exists_part_of_braced h hitem
        cases hline with
        | member hmember =>
            cases hpick
            cases hmember with
            | decl hdecl =>
                exact ⟨sub, hsub, hdecl⟩
        | subType _ =>
            cases hpick
      · obtain ⟨s, hs, hd⟩ := List.mem_flatMap.mp hd
        obtain ⟨item, hitem, hpick⟩ := List.mem_filterMap.mp hs
        obtain ⟨sub, hsub, hline⟩ := exists_part_of_braced h hitem
        cases hline with
        | member _ =>
            cases hpick
        | subType hsubType =>
            cases hpick
            obtain ⟨inner, hinner, hdecl⟩ := exists_part_of_subType hsubType hd
            exact ⟨inner, List.Subset.trans hinner hsub, hdecl⟩
  | enum _ _ =>
      cases hd
  | service h =>
      obtain ⟨item, hitem, hpick⟩ := List.mem_filterMap.mp hd
      obtain ⟨sub, hsub, hline⟩ := exists_part_of_braced h hitem
      cases hline with
      | endpoint _ =>
          cases hpick
      | decl hdecl =>
          cases hpick
          exact ⟨sub, hsub, hdecl⟩

end Nested

section Names

variable {P : String → Prop}

/-- The type names among lexemes have the property. -/
def NamesHold
    (P : String → Prop)
    (part : List Lexeme) : Prop :=
  ∀ l ∈ part, ∀ name, l.symbol = .typeIdent name → P name

theorem NamesHold.of_subset
    {part sub : List Lexeme}
    (h : NamesHold P part)
    (hsub : sub ⊆ part) :
    NamesHold P sub :=
  fun l hl => h l (hsub hl)

/-- Documentation is no name. -/
theorem NamesHold.of_left
    {kept part : List Lexeme}
    (h : NamesHold P part)
    (hleft : Left kept part) :
    NamesHold P kept := by
  intro l hl name hname
  obtain ⟨l', hl', heq⟩ := List.mem_map.mp (hleft.subset (List.mem_map_of_mem hl))
  have hsymbol : l'.symbol = l.symbol := by
    rw [show l'.symbol = l'.undocumented.symbol from rfl, heq]
    rfl
  exact h l' hl' name (hsymbol.trans hname)

theorem named_of_declWithin
    {levels : Nat}
    {part : List Lexeme}
    {d : Decl}
    (h : DeclWithin levels part d)
    (hnames : NamesHold P part) :
    d.Named P := by
  induction levels generalizing part d with
  | zero =>
      exact h.elim
  | succ levels ih =>
      cases h with
      | mk hpart _ _ hname hbody =>
          rw [hpart] at hnames
          refine .mk ?_ fun n hn => ?_
          · cases hname with
            | mk hl =>
                exact hnames _ (by simp) _ hl
          · obtain ⟨sub, hsub, hdecl⟩ := exists_part_of_body hbody hn
            exact ih hdecl (hnames.of_subset (List.subset_append_of_subset_right _ hsub))

/-- Each declaration that is read from lexemes is named by some of them. -/
theorem Reads.named
    {eof : Span}
    {lexemes : List Lexeme}
    {found : List (Except ParseError Item)}
    (h : Reads eof lexemes found)
    (hnames : NamesHold P lexemes)
    {d : Decl}
    (hd : .ok (.decl d) ∈ found) :
    d.Named P := by
  induction h with
  | done _ =>
      cases hd
  | item hitem _ ih =>
      rcases List.mem_cons.mp hd with heq | hd
      · cases heq
        cases hitem with
        | decl hdecl =>
            exact named_of_declWithin hdecl (hnames.of_subset (List.subset_append_left _ _))
      · exact ih (hnames.of_subset (List.subset_append_right _ _)) hd
  | error _ hkept _ ih =>
      rcases List.mem_cons.mp hd with heq | hd
      · cases heq
      · exact ih (hnames.of_left hkept) hd

/-- The lexer names types by the rule of type names. -/
theorem namesHold_ofSource
    (file : Nat)
    (source : String) :
    NamesHold IsTypeName (Lexeme.ofSource file source).lexemes := by
  intro l hl name hname
  have hmem : l.undocumented ∈ (Token.lex source).filterMap (Lexeme.ofPlaced? file) :=
    (Lexeme.gather_eq file [] _).1 ▸ List.mem_map_of_mem hl
  obtain ⟨p, hp, hplaced⟩ := List.mem_filterMap.mp hmem
  have htoken : p.token = .terminal (.typeIdent name) := by
    have hstring : ∀ span, some (⟨.string "", span, []⟩ : Lexeme) ≠ some l.undocumented := by
      intro span heq
      have hsymbol := hname.symm.trans (congrArg Lexeme.symbol (Option.some.inj heq)).symm
      cases hsymbol
    unfold Lexeme.ofPlaced? at hplaced
    split at hplaced
    · rename_i symbol htoken
      have hsymbol := congrArg Lexeme.symbol (Option.some.inj hplaced)
      rw [htoken, show symbol = .typeIdent name from hsymbol.trans hname]
    · exact absurd hplaced (hstring _)
    · exact absurd hplaced (hstring _)
    · cases hplaced
    · cases hplaced
    · cases hplaced
  obtain ⟨-, before, after, -, -, hpiece⟩ := (Token.tiles_lexFrom 0 source.toList).place p hp
  rw [htoken] at hpiece
  generalize p.text = text at hpiece
  rcases hpiece.longest_or_stray id with ⟨rule, hmakes, hlongest⟩ | ⟨c, hstray, -⟩
  · have hmatched := hlongest.matched
    cases hmakes with
    | typeIdent text =>
        rw [IsTypeName, String.toList_ofList]
        exact hmatched
  · cases hstray

/-- Every declaration of a source text is named by the rule of type names. -/
theorem named_of_parse
    (file : Nat)
    (source : String) :
    ∀ d ∈ (parse file source).1.decls, d.Named IsTypeName := by
  intro d hd
  obtain ⟨found, hfound, hpick⟩ := List.mem_filterMap.mp hd
  refine (ofLexemes_reads file source.utf8ByteSize _).named (namesHold_ofSource file source) ?_
  rcases found with e | ⟨i | d'⟩
  · cases hpick
  · cases hpick
  · cases hpick
    exact hfound

/-- The paths of declarations are made of their names. -/
theorem named_of_mem_listing
    {above seen : List String}
    {decls : List Decl}
    (h : ∀ d ∈ decls, d.Named P)
    {path : List String}
    {d : Decl}
    (hd : (path, d) ∈ listing above seen decls) :
    ∀ name ∈ path, name ∈ above ∨ P name := by
  induction above, seen, decls using listing.induct with
  | case1 above seen =>
      rw [listing] at hd
      cases hd
  | case2 above seen d' rest hseen ih =>
      rw [listing, if_pos hseen] at hd
      exact ih (fun d hd => h d (List.mem_cons_of_mem d' hd)) hd
  | case3 above seen d' rest hnew ihInner ihOuter =>
      obtain ⟨hname, hnested⟩ := h d' List.mem_cons_self
      have hhere : ∀ name ∈ above ++ [d'.name.value], name ∈ above ∨ P name := by
        intro name hmem
        rcases List.mem_append.mp hmem with hmem | hmem
        · exact .inl hmem
        · exact .inr (List.mem_singleton.mp hmem ▸ hname)
      rw [listing, if_neg hnew] at hd
      intro name hmem
      rcases List.mem_cons.mp hd with heq | hd
      · cases heq
        exact hhere name hmem
      · rcases List.mem_append.mp hd with hd | hd
        · exact (ihInner hnested hd name hmem).elim (hhere name) .inr
        · exact ihOuter (fun d hd => h d (List.mem_cons_of_mem d' hd)) hd name hmem

end Names

end Tree
end Schemata
