import Schemata.Proofs.Tree.Failure

/-!
# What the reading of a file takes

Reading goes over the lexemes of a file from front to back.  An item that is
read is a phrase at the front of what is left; an item that cannot be read
gives an error at one of the lexemes that are left, or at the end, and some of
them are skipped.  Lexemes are never taken twice, but one in front may have lost
its documentation.

**Results.** `readItems_reads`, `ofLexemes_reads`.
-/

namespace Schemata

namespace Lexeme

/-- A lexeme without the documentation before it. -/
def undocumented
    (l : Lexeme) :
    Lexeme :=
  { l with doc := [] }

/-- The lexeme that a token gives, apart from documentation. -/
def ofPlaced?
    (file : Nat)
    (p : Token.Placed) :
    Option Lexeme :=
  match p.token with
  | .terminal symbol => some ⟨symbol, ⟨file, p.start, p.stop⟩, []⟩
  | .unterminated | .invalidEscape _ _ => some ⟨.string "", ⟨file, p.start, p.stop⟩, []⟩
  | .doc _ | .packageDoc _ | .stray _ => none

/-- The error that a token gives. -/
def error?
    (file : Nat)
    (p : Token.Placed) :
    Option ParseError :=
  match p.token with
  | .stray c => some ⟨.unexpectedCharacter (String.singleton c), ⟨file, p.start, p.stop⟩⟩
  | .unterminated => some ⟨.unterminatedString, ⟨file, p.start, p.stop⟩⟩
  | .invalidEscape start stop =>
      some ⟨.invalidEscape (String.ofList (slice start stop 0 p.text)),
        ⟨file, p.start + start, p.start + stop⟩⟩
  | .terminal _ | .doc _ | .packageDoc _ => none

/-- What is gathered is what the tokens give, one by one. -/
theorem gather_eq
    (file : Nat)
    (doc : List String)
    (placed : List Token.Placed) :
    (gather file doc placed).lexemes.map undocumented = placed.filterMap (ofPlaced? file) ∧
      (gather file doc placed).errors = placed.filterMap (error? file) := by
  induction placed generalizing doc with
  | nil =>
      exact ⟨rfl, rfl⟩
  | cons p placed ih =>
      rw [gather]
      cases htoken : p.token with
      | terminal symbol =>
          simp [ofPlaced?, error?, htoken, ih, undocumented]
      | unterminated =>
          simp [ofPlaced?, error?, htoken, ih, undocumented]
      | invalidEscape start stop =>
          simp [ofPlaced?, error?, htoken, ih, undocumented]
      | doc text =>
          simp [ofPlaced?, error?, htoken, ih]
      | packageDoc text =>
          simp [ofPlaced?, error?, htoken, ih]
      | stray c =>
          simp [ofPlaced?, error?, htoken, ih]

end Lexeme

namespace Tree

open Grammar

/-- What is left of lexemes after some in front of them are gone, apart from documentation. -/
def Left
    (kept lexemes : List Lexeme) : Prop :=
  kept.map Lexeme.undocumented <:+ lexemes.map Lexeme.undocumented

/-- How lexemes are read: items are phrases one after another, and errors stand at lexemes that are
left or at the end. -/
inductive Reads
    (eof : Span) :
    List Lexeme → List (Except ParseError Item) → Prop
  | done
      (lexemes : List Lexeme) :
      Reads eof lexemes []
  | item
      {part rest : List Lexeme}
      {item : Item}
      {found : List (Except ParseError Item)}
      (h : FileItem part item)
      (hrest : Reads eof rest found) :
      Reads eof (part ++ rest) (.ok item :: found)
  | error
      {lexemes kept : List Lexeme}
      {e : ParseError}
      {found : List (Except ParseError Item)}
      (hspan : e.span = eof ∨ ∃ l ∈ lexemes, e.span = l.span)
      (hkept : Left kept lexemes)
      (hrest : Reads eof kept found) :
      Reads eof lexemes (.error e :: found)

section Cursors

variable {c c' : Cursor}

theorem Cursor.eof_bump
    (c : Cursor) :
    c.bump.eof = c.eof := by
  obtain ⟨rest, depth, last, eof⟩ := c
  cases rest with
  | nil =>
      rfl
  | cons l rest =>
      rfl

theorem Cursor.eof_clearDoc
    (c : Cursor) :
    c.clearDoc.eof = c.eof := by
  obtain ⟨rest, depth, last, eof⟩ := c
  cases rest with
  | nil =>
      rfl
  | cons l rest =>
      rfl

theorem Cursor.Passes.eof
    {part : List Lexeme}
    (h : c.Passes part c') :
    c'.eof = c.eof := by
  induction part generalizing c with
  | nil =>
      rw [Cursor.passes_nil.mp h]
  | cons l part ih =>
      rw [ih h.2, Cursor.eof_bump]

/-- The place in front is that of a lexeme, or the end. -/
theorem Cursor.span_mem
    (c : Cursor) :
    c.span = c.eof ∨ ∃ l ∈ c.rest, c.span = l.span := by
  obtain ⟨rest, depth, last, eof⟩ := c
  cases rest with
  | nil =>
      exact .inl rfl
  | cons l rest =>
      exact .inr ⟨l, List.mem_cons_self, rfl⟩

theorem Left.trans
    {p q r : List Lexeme}
    (hpq : Left p q)
    (hqr : Left q r) :
    Left p r :=
  List.IsSuffix.trans hpq hqr

theorem Left.of_suffix
    {p q : List Lexeme}
    (h : p <:+ q) :
    Left p q :=
  h.map _

theorem Cursor.left_clearDoc
    (c : Cursor) :
    Left c.clearDoc.rest c.rest := by
  obtain ⟨rest, depth, last, eof⟩ := c
  cases rest with
  | nil =>
      exact .of_suffix List.suffix_rfl
  | cons l rest =>
      exact List.suffix_rfl

theorem recover_suffix
    (depth : Nat)
    (last : Span)
    (lexemes : List Lexeme) :
    (recover depth last lexemes).1 <:+ lexemes := by
  induction lexemes generalizing depth last with
  | nil =>
      exact List.suffix_rfl
  | cons l rest ih =>
      rw [recover]
      split
      · exact List.suffix_rfl
      · dsimp only
        split
        · exact List.suffix_cons l rest
        · exact (ih _ _).trans (List.suffix_cons l rest)

end Cursors

/-- An item that cannot be read gives an error at a lexeme that is left, or at the end. -/
theorem readItem_error_left
    {c c' : Cursor}
    {e : ParseError}
    (h : readItem c = .error e c') :
    (e.span = c.eof ∨ ∃ l ∈ c.rest, e.span = l.span) ∧
      Left c'.recovered.rest c.rest ∧ c'.eof = c.eof := by
  obtain ⟨part, stop, hpass, -, hspan, -, hnext⟩ := readItem_error h
  have hstop : Left stop.rest c.rest := .of_suffix ⟨part, hpass.rest.symm⟩
  have hleft : Left c'.rest c.rest ∧ c'.eof = c.eof := by
    rcases hnext with rfl | ⟨rfl, -⟩
    · exact ⟨hstop, hpass.eof⟩
    · exact ⟨stop.left_clearDoc.trans hstop, (stop.eof_clearDoc).trans hpass.eof⟩
  refine ⟨?_, (Left.of_suffix (recover_suffix _ _ _)).trans hleft.1, hleft.2⟩
  rw [hspan, ← hpass.eof]
  refine stop.span_mem.imp_right ?_
  rintro ⟨l, hl, heq⟩
  exact ⟨l, by rw [hpass.rest]; exact List.mem_append_right part hl, heq⟩

theorem readItems_reads
    (rounds : Nat)
    (c : Cursor) :
    Reads c.eof c.rest (readItems rounds c) := by
  induction rounds generalizing c with
  | zero =>
      exact .done _
  | succ rounds ih =>
      rw [readItems]
      split
      · exact .done _
      · cases hread : readItem c with
        | ok item next =>
            obtain ⟨part, hpass, hitem⟩ := readItem_sound hread
            have hrest := ih next
            rw [hpass.eof] at hrest
            rw [hpass.rest]
            exact .item hitem hrest
        | error e next =>
            obtain ⟨hspan, hkept, heof⟩ := readItem_error_left hread
            have hrest := ih next.recovered
            rw [show next.recovered.eof = next.eof from rfl, heof] at hrest
            exact .error hspan hkept hrest

/-- A file is read item by item, from its first lexeme on. -/
theorem ofLexemes_reads
    (file size : Nat)
    (lexemes : List Lexeme) :
    Reads ⟨file, size, size⟩ lexemes (ofLexemes file size lexemes) :=
  readItems_reads _
    { rest := lexemes
      depth := 0
      last := ⟨file, 0, 0⟩
      eof := ⟨file, size, size⟩ }

end Tree
end Schemata
