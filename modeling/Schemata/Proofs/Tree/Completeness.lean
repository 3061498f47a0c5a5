import Schemata.Proofs.Tree.Soundness

/-!
# What is in the grammar is accepted

A reader in front of a phrase passes it and gives its meaning, unless what
follows the phrase would prolong it: a name goes on at `::`, a type at `::`,
the parts of a field at `as`.  Each statement names the terminals that must not
follow.

The shapes of the grammar come first, then words, types and the parts that hold
no declarations.

**Results.** `readTypeExpr_complete`, and one statement for each part.
-/

namespace Schemata
namespace Tree

open Grammar

/-- A reader in front of a phrase passes it, unless one of the given terminals follows. -/
def Complete
    {α : Type}
    (r : Reader α)
    (P : Phrase α)
    (never : List Terminal) : Prop :=
  ∀ ⦃c part a c'⦄, c.Passes part c' → P part a → c'.Avoids never → r c = .ok a c'

section Avoids

variable {c c' : Cursor}

theorem Cursor.avoids_nil :
    c.Avoids [] := by
  intro symbol hsymbol
  simp at hsymbol

theorem Cursor.avoids_of_peek?
    {symbol : Terminal}
    {never : List Terminal}
    (hpeek : c.peek? = some symbol)
    (h : symbol ∉ never) :
    c.Avoids never := by
  intro other hother heq
  rw [hpeek, Option.some.injEq] at heq
  exact h (heq ▸ hother)

theorem Cursor.Avoids.ne
    {symbol : Terminal}
    {never : List Terminal}
    (h : c.Avoids (symbol :: never)) :
    c.peek? ≠ some symbol :=
  h symbol List.mem_cons_self

theorem Cursor.Avoids.tail
    {symbol : Terminal}
    {never : List Terminal}
    (h : c.Avoids (symbol :: never)) :
    c.Avoids never :=
  fun other hother => h other (List.mem_cons_of_mem symbol hother)

theorem Cursor.isAt_eq_false
    {symbol : Terminal}
    (h : c.peek? ≠ some symbol) :
    c.isAt symbol = false := by
  simpa [Cursor.isAt] using h

end Avoids

section Shapes

variable {α : Type}
variable {P : Phrase α}
variable {step : Reader α}
variable {never : List Terminal}

theorem eat_complete
    (symbol : Terminal) :
    Complete (eat symbol) (Grammar.Flag symbol) [symbol] := by
  intro c part taken c' hpass h havoids
  cases h with
  | off =>
      cases hpass
      exact eat_of_ne havoids.ne
  | on hl =>
      exact eat_of_passes hl hpass

theorem after_complete
    (symbol : Terminal)
    (hstep : Complete step P never) :
    Complete (after symbol step) (Maybe (Led symbol P)) (symbol :: never) := by
  intro c part found c' hpass h havoids
  rw [after]
  cases h with
  | absent =>
      cases hpass
      rw [bind_of_ok _ (eat_of_ne havoids.ne)]
      rfl
  | present h =>
      cases h with
      | mk hl h =>
          obtain ⟨mid, hfirst, hrest⟩ := Cursor.passes_cons.mp hpass
          rw [bind_of_ok _ (eat_of_passes hl hfirst), if_pos rfl,
            bind_of_ok _ (hstep hrest h havoids.tail)]
          rfl

/-- Where several phrases stand, the first of them begins or nothing is left. -/
theorem Grammar.Many.avoids
    {first : Terminal → Prop}
    {c c' : Cursor}
    {part : List Lexeme}
    {as : List α}
    (hstarts : Starts P first)
    (hfirst : ∀ symbol, first symbol → symbol ∉ never)
    (h : Many P part as)
    (hpass : c.Passes part c')
    (havoids : c'.Avoids never) :
    c.Avoids never := by
  cases h with
  | nil =>
      cases hpass
      exact havoids
  | cons h _ =>
      obtain ⟨l, rest, rfl, hl⟩ := hstarts h
      exact hpass.avoids (hfirst _ hl)

/-- A loop over phrases: the condition holds where each begins, and fails at the end. -/
theorem repeatWhile_complete
    {more : Cursor → Bool}
    {first : Terminal → Prop}
    (hstep : Complete step P never)
    (hstarts : Starts P first)
    (hfirst : ∀ symbol, first symbol → symbol ∉ never)
    (hmore : ∀ c : Cursor, ∀ symbol, c.peek? = some symbol → first symbol → more c = true)
    {c c' : Cursor}
    {part : List Lexeme}
    {as : List α}
    (h : Many P part as)
    (hpass : c.Passes part c')
    (hend : more c' = false)
    (havoids : c'.Avoids never)
    (rounds : Nat)
    (hrounds : part.length < rounds) :
    repeatWhile more step rounds c = .ok as c' := by
  induction h generalizing c rounds with
  | nil =>
      cases hpass
      cases rounds with
      | zero =>
          simp at hrounds
      | succ rounds =>
          rw [repeatWhile, get_bind, if_neg (by simp [hend])]
          rfl
  | @cons p q a as hitem hrest ih =>
      obtain ⟨mid, hp, hq⟩ := Cursor.passes_append.mp hpass
      obtain ⟨l, rest, rfl, hl⟩ := hstarts hitem
      cases rounds with
      | zero =>
          simp at hrounds
      | succ rounds =>
          have hstart := hmore c l.symbol hp.peek? hl
          have hmid := hrest.avoids hstarts hfirst hq havoids
          have hloop := ih hq rounds (by
            simp only [List.length_append, List.length_cons] at hrounds
            omega)
          rw [repeatWhile, get_bind, if_pos hstart, bind_of_ok _ (hstep hp hitem hmid),
            bind_of_ok _ hloop]
          rfl

theorem whileMore_complete
    {more : Cursor → Bool}
    {first : Terminal → Prop}
    (hstep : Complete step P never)
    (hstarts : Starts P first)
    (hfirst : ∀ symbol, first symbol → symbol ∉ never)
    (hmore : ∀ c : Cursor, ∀ symbol, c.peek? = some symbol → first symbol → more c = true)
    {c c' : Cursor}
    {part : List Lexeme}
    {as : List α}
    (h : Many P part as)
    (hpass : c.Passes part c')
    (hend : more c' = false)
    (havoids : c'.Avoids never) :
    whileMore more step c = .ok as c' := by
  have hrounds : part.length < c.rest.length + 1 := by
    rw [hpass.rest, List.length_append]
    omega
  rw [whileMore, get_bind]
  exact repeatWhile_complete hstep hstarts hfirst hmore h hpass hend havoids _ hrounds

theorem starts_led
    (symbol : Terminal) :
    Starts (Led symbol P) (· = symbol) := by
  rintro _ _ ⟨hl, -⟩
  exact ⟨_, _, rfl, hl⟩

theorem further_complete
    (mark : Punctuation)
    (hstep : Complete step P never)
    (hmark : .punctuation mark ∉ never) :
    Complete (further mark step) (Many (Led (.punctuation mark) P))
      (.punctuation mark :: never) := by
  intro c part as c' hpass h havoids
  have hround : Complete (do modify Cursor.bump; step) (Led (.punctuation mark) P) never := by
    intro c part a c' hpass h havoids
    cases h with
    | mk hl h =>
        obtain ⟨mid, hfirst, hrest⟩ := Cursor.passes_cons.mp hpass
        rw [modify_bind, ← hfirst.bump]
        exact hstep hrest h havoids
  refine whileMore_complete hround (starts_led _) ?_ ?_ h hpass
    (Cursor.isAt_eq_false havoids.ne) havoids.tail
  · rintro _ rfl
    exact hmark
  · rintro c _ hpeek rfl
    simp [Cursor.isAt, hpeek]

/-- Items with commas, up to a closing mark. -/
theorem commaItems_complete
    {first : Terminal → Prop}
    {close : Punctuation}
    (hstep : Complete step P never)
    (hstarts : Starts P first)
    (hfirst : ¬ first (.punctuation close))
    (hcomma : .punctuation .comma ∉ never)
    (hclose : .punctuation close ∉ never)
    (hmarks : close ≠ .comma)
    {c c' : Cursor}
    {part : List Lexeme}
    {as : List α}
    (h : CommaList P part as)
    (hpass : c.Passes part c')
    (hend : c'.peek? = some (.punctuation close))
    (rounds : Nat)
    (hrounds : part.length < rounds) :
    commaItems close step rounds c = .ok as c' := by
  -- An item does not begin like the closing mark, so the loop goes on to read it.
  have hopen : ∀ {c c' : Cursor} {part : List Lexeme} {a : α}, P part a → c.Passes part c' →
      ¬ c.isAt (.punctuation close) = true := by
    intro c c' part a hitem hpass hat
    obtain ⟨l, rest, rfl, hl⟩ := hstarts hitem
    have hsymbol : l.symbol = .punctuation close :=
      Option.some.inj (hpass.peek?.symm.trans (Cursor.peek?_of_isAt hat))
    exact hfirst (hsymbol ▸ hl)
  obtain ⟨rounds, rfl⟩ : ∃ n, rounds = n + 1 := ⟨rounds - 1, by omega⟩
  induction h generalizing c rounds with
  | nil =>
      cases hpass
      rw [commaItems, get_bind, if_pos (by simp [Cursor.isAt, hend])]
      rfl
  | last hitem =>
      have hne : c'.peek? ≠ some (.punctuation .comma) := by
        rw [hend]
        simpa using hmarks
      rw [commaItems, get_bind, if_neg (hopen hitem hpass),
        bind_of_ok _ (hstep hpass hitem (Cursor.avoids_of_peek? hend hclose)), eatMark,
        bind_of_ok _ (eat_of_ne hne)]
      rfl
  | @cons p q l a as hitem hl hrest ih =>
      obtain ⟨mid, hp, hq⟩ := Cursor.passes_append.mp hpass
      obtain ⟨next, hmark, hq⟩ := Cursor.passes_cons.mp hq
      simp only [List.length_append, List.length_cons] at hrounds
      obtain ⟨rounds, rfl⟩ : ∃ n, rounds = n + 1 := ⟨rounds - 1, by omega⟩
      have hloop := ih hq rounds (by omega)
      rw [commaItems, get_bind, if_neg (hopen hitem hp),
        bind_of_ok _ (hstep hp hitem (hmark.avoids (hl ▸ hcomma))), eatMark,
        bind_of_ok _ (eat_of_passes hl hmark), if_pos rfl, bind_of_ok _ hloop]
      rfl

/-- Items with commas, in front of a closing parenthesis. -/
theorem commaList_complete
    (hstep : Complete step P never)
    (hstarts : Starts P IsIdent)
    (hcomma : .punctuation .comma ∉ never)
    (hclose : .punctuation .closeParen ∉ never)
    {c c' : Cursor}
    {part : List Lexeme}
    {as : List α}
    (h : CommaList P part as)
    (hpass : c.Passes part c')
    (hend : c'.peek? = some (.punctuation .closeParen)) :
    commaList .closeParen step c = .ok as c' := by
  have hrounds : part.length < c.rest.length + 1 := by
    rw [hpass.rest, List.length_append]
    omega
  have hfirst : ¬ IsIdent (.punctuation .closeParen) := by
    rintro ⟨name, hname⟩
    cases hname
  rw [commaList, get_bind]
  exact commaItems_complete hstep hstarts hfirst hcomma hclose (by decide) h hpass hend _ hrounds

theorem braced_complete
    {first : Terminal → Prop}
    (hstep : Complete step P never)
    (hstarts : Starts P first)
    (hfirst : ∀ symbol, first symbol → symbol ∉ .punctuation .closeBrace :: never)
    (hclose : .punctuation .closeBrace ∉ never) :
    Complete (braced step) (Braced P) [] := by
  intro c part as c' hpass h _
  cases h with
  | mk hl h hr =>
      rw [List.cons_append] at hpass
      obtain ⟨c₁, hopening, hpass⟩ := Cursor.passes_cons.mp hpass
      obtain ⟨c₂, hitems, hclosing⟩ := Cursor.passes_append.mp hpass
      have hend : c₂.peek? = some (.punctuation .closeBrace) := hr ▸ hclosing.peek?
      have hloop : upTo .closeBrace step c₁ = .ok as c₂ := by
        refine whileMore_complete hstep hstarts ?_ ?_ h hitems ?_
          (Cursor.avoids_of_peek? hend hclose)
        · intro symbol hsymbol hmem
          exact hfirst symbol hsymbol (List.mem_cons_of_mem _ hmem)
        · intro c symbol hpeek hsymbol
          have hne : symbol ≠ .punctuation .closeBrace := by
            rintro rfl
            exact hfirst _ hsymbol List.mem_cons_self
          simpa [Cursor.isAt, hpeek] using hne
        · simp [Cursor.isAt, hend]
      rw [braced, bind_of_ok _ (expectMark_of_passes hl hopening), bind_of_ok _ hloop,
        bind_of_ok _ (expectMark_of_passes hr hclosing)]
      rfl

end Shapes

section Words

theorem readIdent_complete
    (expected : String) :
    Complete (readIdent expected) Ident [] := by
  intro c part a c' hpass h _
  cases h with
  | mk hl =>
      rw [readIdent, get_bind, hpass.peek?, hl]
      exact bind_of_ok _ (advance_of_passes hpass)

theorem readTypeIdent_complete
    (expected : String) :
    Complete (readTypeIdent expected) TypeIdent [] := by
  intro c part a c' hpass h _
  cases h with
  | mk hl =>
      rw [readTypeIdent, get_bind, hpass.peek?, hl]
      exact bind_of_ok _ (advance_of_passes hpass)

theorem readString_complete
    (expected : String) :
    Complete (readString expected) Text [] := by
  intro c part a c' hpass h _
  cases h with
  | mk hl =>
      rw [readString, get_bind, hpass.peek?, hl]
      exact bind_of_ok _ (advance_of_passes hpass)

theorem readLiteral_complete :
    Complete readLiteral Constant [] := by
  intro c part a c' hpass h _
  rw [readLiteral, get_bind]
  cases h with
  | string hl =>
      rw [hpass.peek?, hl]
      exact bind_of_ok _ (advance_of_passes hpass)
  | number hl hnumber =>
      rw [hpass.peek?, hl]
      dsimp only
      rw [hnumber]
      exact bind_of_ok _ (advance_of_passes hpass)
  | yes hl =>
      rw [hpass.peek?, hl]
      exact bind_of_ok _ (advance_of_passes hpass)
  | no hl =>
      rw [hpass.peek?, hl]
      exact bind_of_ok _ (advance_of_passes hpass)
  | identifier hl =>
      rw [hpass.peek?, hl]
      exact bind_of_ok _ (advance_of_passes hpass)

end Words

section Types

/-- A qualifier, or none in front of the name of a type. -/
theorem readQualifier_complete
    {c c' : Cursor}
    {part : List Lexeme}
    {found : Option String}
    (hpass : c.Passes part c')
    (h : Maybe Qualifier part found)
    {name : String}
    (hnext : c'.peek? = some (.typeIdent name)) :
    readQualifier c = .ok found c' := by
  rw [readQualifier, get_bind]
  cases h with
  | absent =>
      cases hpass
      rw [hnext]
      rfl
  | present h =>
      cases h with
      | mk hl hsep =>
          obtain ⟨mid, hfirst, hmark⟩ := Cursor.passes_cons.mp hpass
          rw [hfirst.peek?, hl]
          dsimp only
          rw [modify_bind, ← hfirst.bump, bind_of_ok _ (expectMark_of_passes hsep hmark)]
          rfl

theorem readTypeName_complete :
    Complete readTypeName Name [.punctuation .colonColon] := by
  intro c part name c' hpass h havoids
  have hspan := spanOf_of_passes hpass (starts_name.ne_nil h)
  cases h with
  | @mk _ p q qualifier path hpart hqualifier hpath =>
      subst hpart
      obtain ⟨c₁, hp, hq⟩ := Cursor.passes_append.mp hpass
      cases hpath with
      | mk hfirst hmore =>
          obtain ⟨c₂, hhead, htail⟩ := Cursor.passes_append.mp hq
          obtain ⟨l, rest, rfl, text, hl⟩ := starts_typeIdent hfirst
          have hnext : c₁.peek? = some (.typeIdent text) := hl ▸ hhead.peek?
          have htypes := further_complete .colonColon (readTypeIdent_complete "type name")
            (by simp) htail hmore havoids
          rw [readTypeName, get_bind, bind_of_ok _ (readQualifier_complete hp hqualifier hnext),
            bind_of_ok _ (readTypeIdent_complete "type name" hhead hfirst Cursor.avoids_nil),
            bind_of_ok _ htypes, get_bind, ← hspan]
          rfl

/-- A type, by the levels that are left. -/
theorem readTypeExpr_complete
    (levels : Nat) :
    Complete (readTypeExpr levels) (TypeWithin levels) [.punctuation .colonColon] := by
  induction levels with
  | zero =>
      intro c part type c' _ h
      exact h.elim
  | succ levels ih =>
      intro c part type c' hpass h havoids
      rw [readTypeExpr, get_bind]
      cases h with
      | primitive hl =>
          rw [hpass.peek?, hl]
          dsimp only
          rw [modify_bind, ← hpass.bump]
          rfl
      | name h =>
          have hname := readTypeName_complete hpass h havoids
          obtain ⟨l, rest, rfl, ⟨text, hl⟩ | ⟨text, hl⟩⟩ := starts_name h
          · rw [hpass.peek?, hl]
            exact bind_of_ok _ hname
          · rw [hpass.peek?, hl]
            exact bind_of_ok _ hname
      | array h =>
          cases h with
          | mk hl h hr =>
              rw [List.cons_append] at hpass
              rw [hpass.peek?, hl]
              dsimp only
              obtain ⟨c₁, hopening, hpass⟩ := Cursor.passes_cons.mp hpass
              obtain ⟨c₂, hitem, hclosing⟩ := Cursor.passes_append.mp hpass
              rw [modify_bind, ← hopening.bump,
                bind_of_ok _ (ih hitem h (hclosing.avoids (by simp [hr]))),
                bind_of_ok _ (expectMark_of_passes hr hclosing)]
              rfl
      | map h =>
          cases h with
          | mk hl h hr =>
              cases h with
              | mk hkey hcolon hvalue =>
                  rw [List.cons_append] at hpass
                  rw [hpass.peek?, hl]
                  dsimp only
                  obtain ⟨c₁, hopening, hpass⟩ := Cursor.passes_cons.mp hpass
                  obtain ⟨c₄, hentry, hclosing⟩ := Cursor.passes_append.mp hpass
                  obtain ⟨c₂, hp, hentry⟩ := Cursor.passes_append.mp hentry
                  obtain ⟨c₃, hmid, hq⟩ := Cursor.passes_cons.mp hentry
                  rw [modify_bind, ← hopening.bump,
                    bind_of_ok _ (ih hp hkey (hmid.avoids (by simp [hcolon]))),
                    bind_of_ok _ (expectMark_of_passes hcolon hmid),
                    bind_of_ok _ (ih hq hvalue (hclosing.avoids (by simp [hr]))),
                    bind_of_ok _ (expectMark_of_passes hr hclosing)]
                  rfl
      | tuple h =>
          cases h with
          | mk hl h hr =>
              cases h with
              | mk hfirst hmore =>
                  rw [List.cons_append] at hpass
                  rw [hpass.peek?, hl]
                  dsimp only
                  obtain ⟨c₁, hopening, hpass⟩ := Cursor.passes_cons.mp hpass
                  obtain ⟨c₃, hitems, hclosing⟩ := Cursor.passes_append.mp hpass
                  obtain ⟨c₂, hp, hq⟩ := Cursor.passes_append.mp hitems
                  have hend : c₃.Avoids [.punctuation .comma, .punctuation .colonColon] :=
                    hclosing.avoids (by simp [hr])
                  have hmid : c₂.Avoids [.punctuation .colonColon] :=
                    hmore.avoids (starts_led _) (by simp) hq hend.tail
                  rw [modify_bind, ← hopening.bump, bind_of_ok _ (ih hp hfirst hmid),
                    bind_of_ok _ (further_complete .comma ih (by simp) hq hmore hend),
                    bind_of_ok _ (expect_of_passes _ hr hclosing)]
                  rfl

theorem readType_complete
    (levels : Nat) :
    Complete (readType levels) (Placed (TypeWithin levels)) [.punctuation .colonColon] := by
  intro c part found c' hpass h havoids
  cases h with
  | mk h =>
      rw [readType, get_bind, bind_of_ok _ (readTypeExpr_complete levels hpass h havoids),
        get_bind, spanOf_of_passes hpass ((starts_typeWithin levels).ne_nil h)]
      rfl

theorem readChannel_complete
    (levels : Nat) :
    Complete (readChannel levels) (Stream (TypeWithin levels)) [.punctuation .colonColon] := by
  intro c part channel c' hpass h havoids
  cases h with
  | mk hstreaming htype =>
      obtain ⟨c₁, hp, hq⟩ := Cursor.passes_append.mp hpass
      have hmid : c₁.Avoids [.keyword .streamWord] := by
        cases htype with
        | mk h =>
            obtain ⟨l, rest, rfl, hl⟩ := starts_typeWithin levels h
            exact hq.avoids (by simpa using hl)
      rw [readChannel, bind_of_ok _ (eat_complete _ hp hstreaming hmid),
        bind_of_ok _ (readType_complete levels hq htype havoids)]
      rfl

end Types

section Parts

/-- Versions, or none in front of something else than a string. -/
theorem readRange_complete
    {c c' : Cursor}
    {part : List Lexeme}
    {found : Option (Located String)}
    (hpass : c.Passes part c')
    (h : Maybe Text part found)
    (hnext : ∀ text, c'.peek? ≠ some (.string text)) :
    readRange c = .ok found c' := by
  rw [readRange, get_bind]
  cases h with
  | absent =>
      cases hpass
      generalize hpeek : c.peek? = front
      split
      · exact absurd hpeek (hnext _)
      · rfl
  | present h =>
      have hread := readString_complete "version range" hpass h Cursor.avoids_nil
      cases h with
      | mk hl =>
          rw [hpass.peek?, hl]
          exact bind_of_ok _ hread

theorem readImport_complete :
    Complete readImport Use [] := by
  intro c part i c' hpass h _
  have hspan := spanOf_of_passes hpass (starts_use.ne_nil h)
  cases h with
  | mk hpart huse hname hrange halias hstop =>
      cases hname with
      | mk hfirst hmore =>
          subst hpart
          simp only [List.cons_append] at hpass
          obtain ⟨c₁, hp₁, hpass⟩ := Cursor.passes_cons.mp hpass
          obtain ⟨c₆, hpass, hp₆⟩ := Cursor.passes_append.mp hpass
          obtain ⟨c₅, hpass, hp₅⟩ := Cursor.passes_append.mp hpass
          obtain ⟨c₄, hpass, hp₄⟩ := Cursor.passes_append.mp hpass
          obtain ⟨c₂, hp₂, hp₃⟩ := Cursor.passes_append.mp hpass
          have hend : c₆.Avoids [.keyword .asWord] := hp₆.avoids (by simp [hstop])
          -- What follows the versions is the alias or the end.
          have hnext : c₅.peek? = some (.keyword .asWord) ∨
              c₅.peek? = some (.punctuation .semicolon) := by
            cases halias with
            | absent =>
                cases hp₅
                exact .inr (hstop ▸ hp₆.peek?)
            | present h =>
                cases h with
                | mk hl _ =>
                    exact .inl (hl ▸ hp₅.peek?)
          have hdots : c₄.Avoids [.punctuation .fullStop] := by
            cases hrange with
            | absent =>
                cases hp₄
                rcases hnext with h | h
                · exact Cursor.avoids_of_peek? h (by simp)
                · exact Cursor.avoids_of_peek? h (by simp)
            | present h =>
                cases h with
                | mk hl =>
                    exact hp₄.avoids (by simp [hl])
          have htext : ∀ text, c₅.peek? ≠ some (.string text) := by
            intro text heq
            rcases hnext with h | h
            · rw [h] at heq
              cases heq
            · rw [h] at heq
              cases heq
          rw [readImport, bind_of_ok _ (advance_of_passes hp₁),
            bind_of_ok _ (readIdent_complete _ hp₂ hfirst Cursor.avoids_nil),
            bind_of_ok _ (further_complete .fullStop (readIdent_complete _) (by simp) hp₃ hmore
              hdots),
            bind_of_ok _ (readRange_complete hp₄ hrange htext),
            bind_of_ok _ (after_complete _ (readIdent_complete _) hp₅ halias hend),
            bind_of_ok _ (expectMark_of_passes hstop hp₆), hspan, hp₁.span,
            Cursor.Passes.last (show c₆.Passes ([] ++ [_]) c' from hp₆)]
          rfl

theorem readArgument_complete :
    Complete readArgument AttributeArgument [.punctuation .equals] := by
  intro c part argument c' hpass h havoids
  cases h with
  | mk hname hvalue =>
      obtain ⟨c₁, hp, hq⟩ := Cursor.passes_append.mp hpass
      rw [readArgument, bind_of_ok _ (readIdent_complete _ hp hname Cursor.avoids_nil),
        bind_of_ok _ (after_complete _ readLiteral_complete hq hvalue havoids)]
      rfl

theorem readArguments_complete
    {c c' : Cursor}
    {part : List Lexeme}
    {found : Option (List Argument)}
    (hpass : c.Passes part c')
    (h : Maybe (Listed AttributeArgument) part found)
    (havoids : c'.Avoids [.punctuation .openParen]) :
    readArguments c = .ok (found.getD []) c' := by
  rw [readArguments, eatMark]
  cases h with
  | absent =>
      cases hpass
      rw [bind_of_ok _ (eat_of_ne havoids.ne)]
      rfl
  | present h =>
      cases h with
      | mk hl h hr =>
          rw [List.cons_append] at hpass
          obtain ⟨c₁, hopening, hpass⟩ := Cursor.passes_cons.mp hpass
          obtain ⟨c₂, hitems, hclosing⟩ := Cursor.passes_append.mp hpass
          rw [bind_of_ok _ (eat_of_passes hl hopening), if_pos rfl,
            bind_of_ok _ (commaList_complete readArgument_complete starts_attributeArgument
              (by simp) (by simp) h hitems (hr ▸ hclosing.peek?)),
            bind_of_ok _ (expectMark_of_passes hr hclosing)]
          rfl

theorem readAttribute_complete :
    Complete readAttribute HashAttribute [] := by
  intro c part a c' hpass h _
  have hspan := spanOf_of_passes hpass (starts_hashAttribute.ne_nil h)
  cases h with
  | mk hpart hhash hopening hname hargs hclosing =>
      subst hpart
      simp only [List.cons_append] at hpass
      obtain ⟨c₁, hp₁, hpass⟩ := Cursor.passes_cons.mp hpass
      obtain ⟨c₂, hp₂, hpass⟩ := Cursor.passes_cons.mp hpass
      obtain ⟨c₄, hpass, hp₅⟩ := Cursor.passes_append.mp hpass
      obtain ⟨c₃, hp₃, hp₄⟩ := Cursor.passes_append.mp hpass
      have hend : c₄.Avoids [.punctuation .openParen] := hp₅.avoids (by simp [hclosing])
      rw [readAttribute, bind_of_ok _ (advance_of_passes hp₁),
        bind_of_ok _ (expectMark_of_passes hopening hp₂),
        bind_of_ok _ (readIdent_complete _ hp₃ hname Cursor.avoids_nil),
        bind_of_ok _ (readArguments_complete hp₄ hargs hend),
        bind_of_ok _ (expectMark_of_passes hclosing hp₅), hspan, hp₁.span,
        Cursor.Passes.last (show c₄.Passes ([] ++ [_]) c' from hp₅)]
      rfl

theorem readAttributes_complete :
    Complete readAttributes (Many HashAttribute) [.punctuation .hash] := by
  intro c part as c' hpass h havoids
  refine whileMore_complete readAttribute_complete starts_hashAttribute (by simp) ?_ h hpass
    (Cursor.isAt_eq_false havoids.ne) Cursor.avoids_nil
  rintro c _ hpeek rfl
  simp [Cursor.isAt, hpeek]

theorem readFieldParts_complete
    (levels : Nat) :
    Complete (readFieldParts levels) (FieldParts (TypeWithin levels))
      [.keyword .asWord, .punctuation .colonColon] := by
  intro c part field c' hpass h havoids
  have hne := (starts_fieldParts _).ne_nil h
  have hspan := spanOf_of_passes hpass hne
  have hdoc := docOf_of_passes hpass hne
  cases h with
  | mk hpart hname hoptional hcolon htype halias =>
      subst hpart
      obtain ⟨c₄, hpass, hp₅⟩ := Cursor.passes_append.mp hpass
      obtain ⟨c₂, hpass, hp₃⟩ := Cursor.passes_append.mp hpass
      obtain ⟨c₁, hp₁, hp₂⟩ := Cursor.passes_append.mp hpass
      obtain ⟨c₃, hp₃, hp₄⟩ := Cursor.passes_cons.mp hp₃
      have hmid : c₂.Avoids [.punctuation .question] := hp₃.avoids (by simp [hcolon])
      have hend : c₄.Avoids [.punctuation .colonColon] := by
        cases halias with
        | absent =>
            cases hp₅
            exact havoids.tail
        | present h =>
            cases h with
            | mk hl _ =>
                exact hp₅.avoids (by simp [hl])
      have hread := readIdent_clearDoc.mpr
        (readIdent_complete "field name" hp₁ hname Cursor.avoids_nil)
      have htail : c'.Avoids [.keyword .asWord] :=
        fun symbol hsymbol => havoids symbol (by simp_all)
      rw [readFieldParts, takeDoc_bind, bind_of_ok _ hread, eatMark,
        bind_of_ok _ (eat_complete _ hp₂ hoptional hmid),
        bind_of_ok _ (expectMark_of_passes hcolon hp₃),
        bind_of_ok _ (readType_complete levels hp₄ htype hend),
        bind_of_ok _ (after_complete _ (readString_complete _) hp₅ halias htail), get_bind,
        hspan, hdoc, hname.span hp₁]
      rfl

theorem readField_complete
    (levels : Nat) :
    Complete (readField levels) (FieldLine (TypeWithin levels)) [] := by
  intro c part field c' hpass h _
  cases h with
  | mk h hstop =>
      obtain ⟨c₁, hp, hlast⟩ := Cursor.passes_append.mp hpass
      rw [readField, bind_of_ok _ (readFieldParts_complete levels hp h
          (hlast.avoids (by simp [hstop]))),
        bind_of_ok _ (expectMark_of_passes hstop hlast)]
      rfl

theorem readEnumMember_complete :
    Complete readEnumMember EnumLine [] := by
  intro c part member c' hpass h _
  have hne := starts_enumLine.ne_nil h
  have hspan := spanOf_of_passes hpass hne
  have hdoc := docOf_of_passes hpass hne
  cases h with
  | mk hpart hname hvalue hstop =>
      subst hpart
      obtain ⟨c₂, hpass, hp₃⟩ := Cursor.passes_append.mp hpass
      obtain ⟨c₁, hp₁, hp₂⟩ := Cursor.passes_append.mp hpass
      have hread := readTypeIdent_clearDoc.mpr
        (readTypeIdent_complete "enum member" hp₁ hname Cursor.avoids_nil)
      rw [readEnumMember, takeDoc_bind, bind_of_ok _ hread,
        bind_of_ok _ (after_complete _ readLiteral_complete hp₂ hvalue
          (hp₃.avoids (by simp [hstop]))),
        bind_of_ok _ (expectMark_of_passes hstop hp₃), hspan, hdoc, hname.span hp₁,
        Cursor.Passes.last (show c₂.Passes ([] ++ [_]) c' from hp₃)]
      rfl

theorem readEndpointArgument_complete
    (levels : Nat) :
    Complete (readEndpointArgument levels) (ChannelArgument (TypeWithin levels))
      [.punctuation .colonColon] := by
  intro c part argument c' hpass h havoids
  cases h with
  | mk hname hcolon hchannel =>
      obtain ⟨c₁, hp₁, hpass⟩ := Cursor.passes_append.mp hpass
      obtain ⟨c₂, hp₂, hp₃⟩ := Cursor.passes_cons.mp hpass
      rw [readEndpointArgument, bind_of_ok _ (readIdent_complete _ hp₁ hname Cursor.avoids_nil),
        bind_of_ok _ (expectMark_of_passes hcolon hp₂),
        bind_of_ok _ (readChannel_complete levels hp₃ hchannel havoids)]
      rfl

theorem readEndpoint_complete
    (levels : Nat) :
    Complete (readEndpoint levels) (EndpointLine (TypeWithin levels)) [] := by
  intro c part endpoint c' hpass h _
  have hne := (starts_endpointLine _).ne_nil h
  have hspan := spanOf_of_passes hpass hne
  have hdoc := docOf_of_passes hpass hne
  cases h with
  | mk hpart hname harguments hresponse halias hstop =>
      subst hpart
      cases harguments with
      | mk hl harguments hr =>
          obtain ⟨c₆, hpass, hp₇⟩ := Cursor.passes_append.mp hpass
          obtain ⟨c₅, hpass, hp₆⟩ := Cursor.passes_append.mp hpass
          obtain ⟨c₄, hpass, hp₅⟩ := Cursor.passes_append.mp hpass
          obtain ⟨c₁, hp₁, hpass⟩ := Cursor.passes_append.mp hpass
          rw [List.cons_append] at hpass
          obtain ⟨c₂, hp₂, hpass⟩ := Cursor.passes_cons.mp hpass
          obtain ⟨c₃, hp₃, hp₄⟩ := Cursor.passes_append.mp hpass
          have hend : c₆.Avoids [.keyword .asWord] := hp₇.avoids (by simp [hstop])
          -- What follows the response is the alias or the end.
          have hmid : c₅.Avoids [.punctuation .arrow, .punctuation .colonColon] := by
            cases halias with
            | absent =>
                cases hp₆
                exact hp₇.avoids (by simp [hstop])
            | present h =>
                cases h with
                | mk hl _ =>
                    exact hp₆.avoids (by simp [hl])
          have hread := readIdent_clearDoc.mpr
            (readIdent_complete "endpoint name" hp₁ hname Cursor.avoids_nil)
          rw [readEndpoint, takeDoc_bind, bind_of_ok _ hread,
            bind_of_ok _ (expectMark_of_passes hl hp₂),
            bind_of_ok _ (commaList_complete (readEndpointArgument_complete levels)
              (starts_channelArgument _) (by simp) (by simp) harguments hp₃ (hr ▸ hp₄.peek?)),
            bind_of_ok _ (expect_of_passes _ hr hp₄),
            bind_of_ok _ (after_complete _ (readChannel_complete levels) hp₅ hresponse hmid),
            bind_of_ok _ (after_complete _ (readString_complete _) hp₆ halias hend),
            bind_of_ok _ (expectMark_of_passes hstop hp₇), hspan, hdoc, hname.span hp₁,
            Cursor.Passes.last (show c₆.Passes ([] ++ [_]) c' from hp₇)]
          rfl

end Parts

end Tree
end Schemata
