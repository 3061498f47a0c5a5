import Schemata.Tree.Parser
import Mathlib.Tactic

/-!
# Runs of readers

A cursor passes lexemes one by one.  `c.Passes part c'` says that it goes from
`c` to `c'` by taking the lexemes of `part`.  Each elementary step of a reader
is described by what it passes; a run of several steps is opened by
`bind_eq_ok_iff` and put together by `bind_of_ok`.

Documentation in front of a cursor is used up by whoever reads it.  As the
lexeme behind it is taken next, this leaves no trace: the lemmas on `clearDoc`
say so.
-/

namespace Schemata
namespace Tree

section Runs

variable {α β : Type}
variable {c c' : Cursor}

theorem bind_eq_ok_iff
    {r : Reader α}
    {f : α → Reader β}
    {b : β} :
    (r >>= f) c = .ok b c' ↔ ∃ a next, r c = .ok a next ∧ f a next = .ok b c' := by
  change EStateM.bind r f c = .ok b c' ↔ _
  unfold EStateM.bind
  cases r c with
  | ok a next =>
      simp
  | error e next =>
      simp

theorem bind_of_ok
    {r : Reader α}
    (f : α → Reader β)
    {a : α}
    (h : r c = .ok a c') :
    (r >>= f) c = f a c' := by
  change EStateM.bind r f c = f a c'
  unfold EStateM.bind
  rw [h]

theorem bind_congr_at
    {r r' : Reader α}
    (f : α → Reader β)
    (h : r c = r' c') :
    (r >>= f) c = (r' >>= f) c' := by
  change EStateM.bind r f c = EStateM.bind r' f c'
  unfold EStateM.bind
  rw [h]

theorem bind_of_error
    {r : Reader α}
    (f : α → Reader β)
    {e : ParseError}
    (h : r c = .error e c') :
    (r >>= f) c = .error e c' := by
  change EStateM.bind r f c = .error e c'
  unfold EStateM.bind
  rw [h]

@[simp] theorem pure_eq_ok_iff
    {a b : α} :
    (pure a : Reader α) c = .ok b c' ↔ a = b ∧ c = c' := by
  change EStateM.Result.ok a c = .ok b c' ↔ _
  simp

@[simp] theorem get_bind
    (f : Cursor → Reader β) :
    (get >>= f) c = f c c :=
  rfl

@[simp] theorem modify_bind
    (g : Cursor → Cursor)
    (f : PUnit → Reader β) :
    (modify g >>= f) c = f ⟨⟩ (g c) :=
  rfl

theorem failExpecting_apply
    (expected : String) :
    (failExpecting expected : Reader α) c = .error (unexpected expected c) c :=
  rfl

theorem failExpecting_ne_ok
    {expected : String}
    {a : α} :
    (failExpecting expected : Reader α) c ≠ .ok a c' := by
  rw [failExpecting_apply]
  simp

end Runs

namespace Cursor

/-- The cursor goes on by taking the given lexemes. -/
def Passes : Cursor → List Lexeme → Cursor → Prop
  | c, [], c' => c' = c
  | c, l :: part, c' => c.rest.head? = some l ∧ Passes c.bump part c'

/-- None of the given terminals is in front. -/
def Avoids
    (c : Cursor)
    (never : List Terminal) : Prop :=
  ∀ symbol ∈ never, c.peek? ≠ some symbol

section Passes

variable {c c' : Cursor}
variable {l : Lexeme}
variable {part : List Lexeme}

@[simp] theorem passes_nil :
    c.Passes [] c' ↔ c' = c :=
  Iff.rfl

theorem passes_append
    {p q : List Lexeme} :
    c.Passes (p ++ q) c' ↔ ∃ mid, c.Passes p mid ∧ mid.Passes q c' := by
  induction p generalizing c with
  | nil =>
      simp
  | cons l p ih =>
      simp only [List.cons_append, Passes, ih]
      constructor
      · rintro ⟨hfront, mid, hp, hq⟩
        exact ⟨mid, ⟨hfront, hp⟩, hq⟩
      · rintro ⟨mid, ⟨hfront, hp⟩, hq⟩
        exact ⟨hfront, mid, hp, hq⟩

theorem passes_cons :
    c.Passes (l :: part) c' ↔ ∃ mid, c.Passes [l] mid ∧ mid.Passes part c' :=
  passes_append (p := [l])

theorem Passes.append
    {p q : List Lexeme}
    {mid : Cursor}
    (hp : c.Passes p mid)
    (hq : mid.Passes q c') :
    c.Passes (p ++ q) c' :=
  passes_append.mpr ⟨mid, hp, hq⟩

theorem Passes.bump
    (h : c.Passes [l] c') :
    c' = c.bump :=
  h.2

theorem Passes.rest
    (h : c.Passes part c') :
    c.rest = part ++ c'.rest := by
  induction part generalizing c with
  | nil =>
      rw [passes_nil.mp h, List.nil_append]
  | cons l part ih =>
      obtain ⟨hfront, hrest⟩ := h
      obtain ⟨rest, depth, last, eof⟩ := c
      cases rest with
      | nil =>
          simp at hfront
      | cons x rest =>
          obtain rfl : x = l := by
            simpa using hfront
          rw [List.cons_append, ← ih hrest]
          rfl

/-- A cursor passes what is in front of it. -/
theorem exists_passes
    {q : List Lexeme}
    (h : c.rest = part ++ q) :
    ∃ c', c.Passes part c' ∧ c'.rest = q := by
  induction part generalizing c with
  | nil =>
      exact ⟨c, rfl, h⟩
  | cons l part ih =>
      have hbump : c.bump.rest = part ++ q := by
        unfold Cursor.bump
        rw [h]
        rfl
      obtain ⟨c', hpass, hrest⟩ := ih hbump
      exact ⟨c', ⟨by rw [h]; rfl, hpass⟩, hrest⟩

theorem Passes.peek?
    (h : c.Passes (l :: part) c') :
    c.peek? = some l.symbol := by
  rw [Cursor.peek?, h.1, Option.map_some]

theorem Passes.isAt
    (h : c.Passes (l :: part) c')
    (symbol : Terminal) :
    c.isAt symbol = decide (l.symbol = symbol) := by
  rw [Cursor.isAt, h.peek?]
  by_cases hsymbol : l.symbol = symbol
  · simp [hsymbol]
  · simp [hsymbol]

theorem Passes.span
    (h : c.Passes (l :: part) c') :
    c.span = l.span := by
  rw [Cursor.span, h.rest]
  rfl

theorem Passes.doc
    (h : c.Passes (l :: part) c') :
    c.doc = l.doc := by
  rw [Cursor.doc, h.rest]
  rfl

theorem Passes.last
    (h : c.Passes (part ++ [l]) c') :
    c'.last = l.span := by
  obtain ⟨mid, -, hlast⟩ := passes_append.mp h
  rw [hlast.bump]
  unfold Cursor.bump
  rw [hlast.rest]
  rfl

theorem Passes.avoids
    (h : c.Passes (l :: part) c')
    {never : List Terminal}
    (hl : l.symbol ∉ never) :
    c.Avoids never := by
  intro symbol hsymbol heq
  rw [h.peek?, Option.some.injEq] at heq
  exact hl (heq ▸ hsymbol)

theorem peek?_of_isAt
    {symbol : Terminal}
    (h : c.isAt symbol = true) :
    c.peek? = some symbol := by
  simpa [Cursor.isAt] using h

/-- The lexeme in front can be passed. -/
theorem exists_passes_of_peek?
    {symbol : Terminal}
    (h : c.peek? = some symbol) :
    ∃ l, l.symbol = symbol ∧ c.Passes [l] c.bump := by
  obtain ⟨l, hfront, hsymbol⟩ := Option.map_eq_some_iff.mp h
  exact ⟨l, hsymbol, hfront, rfl⟩

end Passes

section ClearDoc

variable (c : Cursor)

@[simp] theorem bump_clearDoc :
    c.clearDoc.bump = c.bump := by
  obtain ⟨rest, depth, last, eof⟩ := c
  cases rest with
  | nil =>
      rfl
  | cons l rest =>
      rfl

@[simp] theorem peek?_clearDoc :
    c.clearDoc.peek? = c.peek? := by
  obtain ⟨rest, depth, last, eof⟩ := c
  cases rest with
  | nil =>
      rfl
  | cons l rest =>
      rfl

@[simp] theorem isAt_clearDoc
    (symbol : Terminal) :
    c.clearDoc.isAt symbol = c.isAt symbol := by
  rw [isAt, peek?_clearDoc, isAt]

@[simp] theorem span_clearDoc :
    c.clearDoc.span = c.span := by
  obtain ⟨rest, depth, last, eof⟩ := c
  cases rest with
  | nil =>
      rfl
  | cons l rest =>
      rfl

@[simp] theorem length_rest_clearDoc :
    c.clearDoc.rest.length = c.rest.length := by
  obtain ⟨rest, depth, last, eof⟩ := c
  cases rest with
  | nil =>
      rfl
  | cons l rest =>
      rfl

end ClearDoc

end Cursor

section Steps

variable {α : Type}
variable {c c' : Cursor}
variable {l : Lexeme}
variable {symbol : Terminal}

@[simp] theorem advance_apply :
    advance c = .ok c.bump.last c.bump :=
  rfl

theorem advance_of_passes
    (h : c.Passes [l] c') :
    advance c = .ok l.span c' := by
  have hlast : c'.last = l.span := Cursor.Passes.last (show c.Passes ([] ++ [l]) c' from h)
  rw [advance_apply, ← h.bump, hlast]

theorem advance_clearDoc :
    advance c.clearDoc = advance c := by
  rw [advance_apply, advance_apply, Cursor.bump_clearDoc]

theorem expect_eq_ok_iff
    {expected : String}
    {span : Span} :
    expect symbol expected c = .ok span c' ↔
      ∃ l, l.symbol = symbol ∧ span = l.span ∧ c.Passes [l] c' := by
  rw [expect, get_bind]
  constructor
  · intro h
    split at h
    · rename_i hat
      obtain ⟨l, hl, hpass⟩ := Cursor.exists_passes_of_peek? (by simpa [Cursor.isAt] using hat)
      rw [advance_of_passes hpass] at h
      cases h
      exact ⟨l, hl, rfl, hpass⟩
    · exact absurd h failExpecting_ne_ok
  · rintro ⟨l, rfl, rfl, hpass⟩
    rw [hpass.isAt, decide_eq_true rfl, if_pos rfl]
    exact advance_of_passes hpass

theorem expect_of_passes
    (expected : String)
    (hl : l.symbol = symbol)
    (h : c.Passes [l] c') :
    expect symbol expected c = .ok l.span c' :=
  expect_eq_ok_iff.mpr ⟨l, hl, rfl, h⟩

theorem expectMark_of_passes
    {mark : Punctuation}
    (hl : l.symbol = .punctuation mark)
    (h : c.Passes [l] c') :
    expectMark mark c = .ok l.span c' :=
  expect_of_passes _ hl h

theorem eat_of_passes
    (hl : l.symbol = symbol)
    (h : c.Passes [l] c') :
    eat symbol c = .ok true c' := by
  rw [eat, get_bind, h.isAt, decide_eq_true hl, if_pos rfl, modify_bind, h.bump]
  rfl

theorem eat_of_ne
    (h : c.peek? ≠ some symbol) :
    eat symbol c = .ok false c := by
  rw [eat, get_bind, if_neg (by simpa [Cursor.isAt] using h)]
  rfl

theorem eat_eq_ok
    {taken : Bool}
    (h : eat symbol c = .ok taken c') :
    (taken = true ∧ ∃ l, l.symbol = symbol ∧ c.Passes [l] c') ∨
      taken = false ∧ c' = c ∧ c.peek? ≠ some symbol := by
  by_cases hpeek : c.peek? = some symbol
  · obtain ⟨l, hl, hpass⟩ := Cursor.exists_passes_of_peek? hpeek
    rw [eat_of_passes hl hpass] at h
    cases h
    exact Or.inl ⟨rfl, l, hl, hpass⟩
  · rw [eat_of_ne hpeek] at h
    cases h
    exact Or.inr ⟨rfl, rfl, hpeek⟩

/-- A choice by whether a terminal is in front. -/
theorem eat_bind_eq_ok_iff
    {x y : Reader α}
    {a : α} :
    (eat symbol >>= fun taken => if taken = true then x else y) c = .ok a c' ↔
      (∃ l next, l.symbol = symbol ∧ c.Passes [l] next ∧ x next = .ok a c') ∨
        c.peek? ≠ some symbol ∧ y c = .ok a c' := by
  by_cases hpeek : c.peek? = some symbol
  · obtain ⟨l, hl, hpass⟩ := Cursor.exists_passes_of_peek? hpeek
    rw [bind_of_ok _ (eat_of_passes hl hpass), if_pos rfl]
    refine ⟨fun h => Or.inl ⟨l, c.bump, hl, hpass, h⟩, ?_⟩
    rintro (⟨_, next, -, hnext, h⟩ | ⟨hne, -⟩)
    · rwa [← hnext.bump]
    · exact absurd hpeek hne
  · rw [bind_of_ok _ (eat_of_ne hpeek), if_neg Bool.false_ne_true]
    refine ⟨fun h => Or.inr ⟨hpeek, h⟩, ?_⟩
    rintro (⟨l, next, hl, hnext, -⟩ | ⟨-, h⟩)
    · exact absurd (hl ▸ hnext.peek?) hpeek
    · exact h

/-- A value made from the lexeme in front. -/
theorem advance_bind_eq_ok
    {f : Span → α}
    {a : α}
    (hpeek : c.peek? = some symbol)
    (h : (advance >>= fun span => pure (f span)) c = .ok a c') :
    ∃ l, l.symbol = symbol ∧ c.Passes [l] c' ∧ f l.span = a := by
  obtain ⟨l, hl, hpass⟩ := Cursor.exists_passes_of_peek? hpeek
  rw [bind_of_ok _ (advance_of_passes hpass), pure_eq_ok_iff] at h
  obtain ⟨hvalue, rfl⟩ := h
  exact ⟨l, hl, hpass, hvalue⟩

@[simp] theorem takeDoc_bind
    {β : Type}
    (f : List String → Reader β) :
    (takeDoc >>= f) c = f c.doc c.clearDoc :=
  rfl

end Steps

section Documentation

variable {c c' : Cursor}

/-- Identifiers are read alike with and without documentation in front. -/
theorem readIdent_clearDoc
    {expected : String}
    {a : Located String} :
    readIdent expected c.clearDoc = .ok a c' ↔ readIdent expected c = .ok a c' := by
  rw [readIdent, get_bind, get_bind, Cursor.peek?_clearDoc]
  generalize c.peek? = front
  split
  · rw [bind_congr_at _ advance_clearDoc]
  · exact ⟨fun h => absurd h failExpecting_ne_ok, fun h => absurd h failExpecting_ne_ok⟩

theorem readTypeIdent_clearDoc
    {expected : String}
    {a : Located String} :
    readTypeIdent expected c.clearDoc = .ok a c' ↔ readTypeIdent expected c = .ok a c' := by
  rw [readTypeIdent, get_bind, get_bind, Cursor.peek?_clearDoc]
  generalize c.peek? = front
  split
  · rw [bind_congr_at _ advance_clearDoc]
  · exact ⟨fun h => absurd h failExpecting_ne_ok, fun h => absurd h failExpecting_ne_ok⟩

theorem readDeclWord_clearDoc
    {word : DeclWord} :
    readDeclWord c.clearDoc = .ok word c' ↔ readDeclWord c = .ok word c' := by
  rw [readDeclWord, get_bind, get_bind, Cursor.peek?_clearDoc, Cursor.span_clearDoc]
  generalize c.peek? = front
  split
  · rename_i keyword
    cases DeclWord.ofKeyword? keyword with
    | some kind =>
        dsimp only
        rw [modify_bind, modify_bind, Cursor.bump_clearDoc]
    | none =>
        exact ⟨fun h => absurd h failExpecting_ne_ok, fun h => absurd h failExpecting_ne_ok⟩
  · exact ⟨fun h => (by cases h), fun h => (by cases h)⟩
  · exact ⟨fun h => absurd h failExpecting_ne_ok, fun h => absurd h failExpecting_ne_ok⟩

/-- Without an attribute in front, there are none. -/
theorem readAttributes_of_ne
    (h : c.peek? ≠ some (.punctuation .hash)) :
    readAttributes c = .ok [] c := by
  rw [readAttributes, whileMore, get_bind, repeatWhile, get_bind,
    if_neg (by simpa [Cursor.isAt] using h)]
  rfl

/-- Attributes are read alike with and without documentation in front. -/
theorem readAttributes_clearDoc
    (h : c.peek? = some (.punctuation .hash)) :
    readAttributes c.clearDoc = readAttributes c := by
  have hfirst : readAttribute c.clearDoc = readAttribute c :=
    bind_congr_at _ advance_clearDoc
  rw [readAttributes, whileMore, get_bind, get_bind, repeatWhile, Cursor.length_rest_clearDoc,
    repeatWhile, get_bind, get_bind, Cursor.isAt_clearDoc]
  rw [if_pos (by simpa [Cursor.isAt] using h)]
  exact bind_congr_at _ hfirst

end Documentation

end Tree
end Schemata
