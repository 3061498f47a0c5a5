import Schemata.Proofs.Token.Escape
import Schemata.Proofs.Tree.Reading

/-!
# Places in a source

A place is a span whose ends stand between characters of the source, in their
order; what it shows is the text between them.  Places lie in a row when each
ends before the next begins.  The lexemes of a source lie in a row from its first
byte to its last, and each error of a token shows the text that it is about.

**Results.** `Row.cover`, `lexemes_row`, `lexerError_lies`.
-/

namespace Schemata

section Places

/-- The text stands in the source at the span. -/
def Span.Shows
    (source : String)
    (span : Span)
    (text : String) : Prop :=
  ∃ before after, source = before ++ text ++ after ∧ before.utf8ByteSize = span.start ∧
    span.start + text.utf8ByteSize = span.stop

/-- The ends of the span stand between characters of the source, in their order. -/
structure Span.LiesIn
    (file : Nat)
    (source : String)
    (span : Span) : Prop where
  file_eq : span.file = file
  start_le_stop : span.start ≤ span.stop
  stop_le_size : span.stop ≤ source.utf8ByteSize
  start_isValid : String.Pos.Raw.IsValid source ⟨span.start⟩
  stop_isValid : String.Pos.Raw.IsValid source ⟨span.stop⟩

variable {file : Nat}
variable {source : String}

theorem Span.LiesIn.of_shows
    {span : Span}
    {text : String}
    (hfile : span.file = file)
    (h : span.Shows source text) :
    span.LiesIn file source := by
  obtain ⟨before, after, rfl, hstart, hstop⟩ := h
  refine ⟨hfile, by omega, ?_, ?_, ?_⟩
  · simp only [String.utf8ByteSize_append]
    omega
  · refine String.Pos.Raw.isValid_iff_exists_append.mpr
      ⟨before, text ++ after, String.append_assoc, ?_⟩
    rw [← hstart]
    rfl
  · refine String.Pos.Raw.isValid_iff_exists_append.mpr ⟨before ++ text, after, rfl, ?_⟩
    rw [← hstop, ← hstart, ← String.utf8ByteSize_append]
    rfl

/-- A cut of the source by characters shows what is cut out. -/
theorem Span.Shows.of_toList
    {span : Span}
    {before text after : List Char}
    (hsource : source.toList = before ++ text ++ after)
    (hstart : span.start = Text.byteLength before)
    (hstop : span.stop = span.start + Text.byteLength text) :
    span.Shows source (String.ofList text) := by
  refine ⟨String.ofList before, String.ofList after, ?_, ?_, ?_⟩
  · rw [← String.ofList_append, ← String.ofList_append, ← hsource, String.ofList_toList]
  · rw [Text.byteLength_ofList, hstart]
  · rw [Text.byteLength_ofList, hstop]

/-- The end of the source is a place. -/
theorem liesIn_end
    (file : Nat)
    (source : String) :
    Span.LiesIn file source ⟨file, source.utf8ByteSize, source.utf8ByteSize⟩ := by
  have hshows : Span.Shows source ⟨file, source.utf8ByteSize, source.utf8ByteSize⟩ "" :=
    ⟨source, "", by simp, rfl, rfl⟩
  exact .of_shows rfl hshows

end Places

section Rows

variable (file : Nat)
variable (source : String)

/-- Places one after another, from an offset to a later one. -/
inductive Row : Nat → Nat → List Span → Prop
  | nil
      {a b : Nat}
      (h : a ≤ b) :
      Row a b []
  | cons
      {a b : Nat}
      {span : Span}
      {rest : List Span}
      (hlies : span.LiesIn file source)
      (hstart : a ≤ span.start)
      (hrest : Row span.stop b rest) :
      Row a b (span :: rest)

variable {file : Nat}
variable {source : String}
variable {a b m : Nat}
variable {row row' : List Span}

theorem Row.le
    (h : Row file source a b row) :
    a ≤ b := by
  induction h with
  | nil h =>
      exact h
  | cons hlies hstart _ ih =>
      exact hstart.trans (hlies.start_le_stop.trans ih)

theorem row_append :
    Row file source a b (row ++ row') ↔
      ∃ m, Row file source a m row ∧ Row file source m b row' := by
  induction row generalizing a with
  | nil =>
      constructor
      · intro h
        exact ⟨a, .nil le_rfl, h⟩
      · rintro ⟨m, hrow, hrow'⟩
        cases hrow with
        | nil hle =>
            cases hrow' with
            | nil h =>
                exact .nil (hle.trans h)
            | cons hlies hstart hrest =>
                exact .cons hlies (hle.trans hstart) hrest
  | cons span row ih =>
      constructor
      · rintro (_ | ⟨hlies, hstart, hrest⟩)
        obtain ⟨m, hrow, hrow'⟩ := ih.mp hrest
        exact ⟨m, .cons hlies hstart hrow, hrow'⟩
      · rintro ⟨m, _ | ⟨hlies, hstart, hrest⟩, hrow'⟩
        exact .cons hlies hstart (ih.mpr ⟨m, hrest, hrow'⟩)

theorem Row.append
    (h : Row file source a m row)
    (h' : Row file source m b row') :
    Row file source a b (row ++ row') :=
  row_append.mpr ⟨m, h, h'⟩

/-- What lies in a row lies in any longer one. -/
theorem Row.mono
    (h : Row file source a b row)
    {a' b' : Nat}
    (ha : a' ≤ a)
    (hb : b ≤ b') :
    Row file source a' b' row := by
  have hrow := (Row.nil ha).append (h.append (.nil hb))
  rwa [List.nil_append, List.append_nil] at hrow

theorem Row.skip
    (h : Row file source a b row) :
    Row file source a b [] :=
  .nil h.le

theorem Row.tail
    {span : Span}
    (h : Row file source a b (span :: row)) :
    Row file source a b row := by
  cases h with
  | cons hlies hstart hrest =>
      exact hrest.mono (hstart.trans hlies.start_le_stop) le_rfl

theorem Row.sublist
    (h : Row file source a b row)
    (hsub : row'.Sublist row) :
    Row file source a b row' := by
  induction hsub generalizing a with
  | slnil =>
      exact h
  | cons span _ ih =>
      exact ih h.tail
  | cons_cons span _ ih =>
      cases h with
      | cons hlies hstart hrest =>
          exact .cons hlies hstart (ih hrest)

theorem Row.mem
    (h : Row file source a b row)
    {span : Span}
    (hspan : span ∈ row) :
    span.LiesIn file source ∧ a ≤ span.start ∧ span.stop ≤ b := by
  induction h with
  | nil =>
      cases hspan
  | cons hlies hstart hrest ih =>
      rcases List.mem_cons.mp hspan with rfl | hspan
      · exact ⟨hlies, hstart, hrest.le⟩
      · obtain ⟨hlies', hstart', hstop'⟩ := ih hspan
        exact ⟨hlies', hstart.trans (hlies.start_le_stop.trans hstart'), hstop'⟩

theorem Row.pairwise
    (h : Row file source a b row) :
    row.Pairwise fun p q => p.stop ≤ q.start := by
  induction h with
  | nil =>
      exact .nil
  | cons _ _ hrest ih =>
      exact .cons (fun q hq => (hrest.mem hq).2.1) ih

/-- Places each of which ends before the next begins lie in a row. -/
theorem Row.of_pairwise
    (hle : a ≤ b)
    (hmem : ∀ span ∈ row, span.LiesIn file source ∧ a ≤ span.start ∧ span.stop ≤ b)
    (hapart : row.Pairwise fun p q => p.stop ≤ q.start) :
    Row file source a b row := by
  induction row generalizing a with
  | nil =>
      exact .nil hle
  | cons span row ih =>
      obtain ⟨hlies, hstart, hstop⟩ := hmem span List.mem_cons_self
      obtain ⟨hfirst, hrest⟩ := List.pairwise_cons.mp hapart
      refine .cons hlies hstart (ih hstop (fun q hq => ?_) hrest)
      obtain ⟨hlies', -, hstop'⟩ := hmem q (List.mem_cons_of_mem span hq)
      exact ⟨hlies', hfirst q hq, hstop'⟩

/-- A place alone is a row. -/
theorem Span.LiesIn.alone
    {span : Span}
    (h : span.LiesIn file source) :
    Row file source span.start span.stop [span] :=
  .cons h le_rfl (.nil le_rfl)

theorem Span.cover_of_le
    {p q : Span}
    (hp : p.start ≤ p.stop)
    (hpq : p.stop ≤ q.start)
    (hq : q.start ≤ q.stop) :
    p.cover q = ⟨p.file, p.start, q.stop⟩ := by
  rw [Span.cover, min_eq_left (by omega), max_eq_right (by omega)]

/-- Two neighbours in a row can be covered by one place. -/
theorem Row.cover
    {p q : Span}
    (h : Row file source a b (p :: q :: row)) :
    Row file source a b (p.cover q :: row) := by
  obtain _ | ⟨hp, hstart, _ | ⟨hq, hpq, hrest⟩⟩ := h
  rw [Span.cover_of_le hp.start_le_stop hpq hq.start_le_stop]
  refine .cons ⟨hp.file_eq, ?_, hq.stop_le_size, hp.start_isValid, hq.stop_isValid⟩ hstart hrest
  exact hp.start_le_stop.trans (hpq.trans hq.start_le_stop)

/-- Any number of neighbours in a row can be covered by one place. -/
theorem Row.foldl_cover
    {first : Span}
    (h : Row file source a b (first :: row)) :
    Row file source a b [row.foldl Span.cover first] := by
  induction row generalizing first with
  | nil =>
      exact h
  | cons span row ih =>
      exact ih h.cover

end Rows

namespace Tree

open Grammar

section Lexemes

variable {file : Nat}
variable {source : String}
variable {a b : Nat}
variable {part : List Lexeme}

/-- Lexemes one after another. -/
abbrev Laid
    (file : Nat)
    (source : String)
    (a b : Nat)
    (part : List Lexeme) : Prop :=
  Row file source a b (part.map (·.span))

/-- Documentation has no place. -/
theorem Left.laid
    {kept : List Lexeme}
    (h : Left kept part)
    (hpart : Laid file source a b part) :
    Laid file source a b kept := by
  have hspans : ∀ ls : List Lexeme, ls.map (·.span) = (ls.map Lexeme.undocumented).map (·.span) := by
    intro ls
    rw [List.map_map]
    rfl
  rw [Laid, hspans] at hpart ⊢
  exact hpart.sublist (h.sublist.map _)

/-- Lexemes in a row fill the place from the first to the last. -/
theorem Laid.spanOf
    (h : Laid file source a b part)
    (hne : part ≠ []) :
    Row file source a b [spanOf part] ∧
      Laid file source (spanOf part).start (spanOf part).stop part := by
  obtain ⟨first, rest, rfl⟩ := List.exists_cons_of_ne_nil hne
  rcases List.eq_nil_or_concat' rest with rfl | ⟨mid, last, rfl⟩
  · have hself : Grammar.spanOf [first] = first.span := by
      change first.span.cover first.span = first.span
      rw [Span.cover, min_self, max_self]
    rw [hself]
    exact ⟨h, ((h.mem List.mem_cons_self).1).alone⟩
  · have hends : Grammar.spanOf (first :: (mid ++ [last])) = first.span.cover last.span := by
      rw [Grammar.spanOf, ← List.cons_append, List.getLast?_concat]
      rfl
    have hrow := h.sublist (show [first.span, last.span].Sublist _ from
      ((List.sublist_append_right mid [last]).cons_cons first).map _)
    obtain _ | ⟨hfirst, -, _ | ⟨hlast, hapart, -⟩⟩ := id hrow
    rw [hends]
    refine ⟨hrow.cover, ?_⟩
    rw [Span.cover_of_le hfirst.start_le_stop hapart hlast.start_le_stop]
    -- all of the row lies between the first lexeme and the last
    have hpairs := h.pairwise
    refine .of_pairwise (hfirst.start_le_stop.trans (hapart.trans hlast.start_le_stop)) ?_ hpairs
    intro span hspan
    refine ⟨(h.mem hspan).1, ?_, ?_⟩
    · rw [List.map_cons, List.pairwise_cons] at hpairs
      rcases List.mem_cons.mp hspan with rfl | hspan
      · exact le_rfl
      · exact hfirst.start_le_stop.trans (hpairs.1 span hspan)
    · rw [← List.cons_append, List.map_append, List.pairwise_append] at hpairs
      rw [← List.cons_append, List.map_append] at hspan
      rcases List.mem_append.mp hspan with hspan | hspan
      · exact (hpairs.2.2 span hspan last.span List.mem_cons_self).trans hlast.start_le_stop
      · obtain rfl := List.mem_singleton.mp hspan
        exact le_rfl

end Lexemes

section Tokens

variable (file : Nat)
variable (source : String)

theorem placed_shows
    {p : Token.Placed}
    (hp : p ∈ Token.lex source) :
    Span.Shows source ⟨file, p.start, p.stop⟩ (String.ofList p.text) := by
  obtain ⟨-, before, after, hsource, hstart, -⟩ :=
    (Token.tiles_lexFrom 0 source.toList).place p hp
  exact .of_toList hsource (by rw [← hstart, Nat.zero_add]) rfl

theorem span_of_ofPlaced?
    {p : Token.Placed}
    {l : Lexeme}
    (h : Lexeme.ofPlaced? file p = some l) :
    l.span = ⟨file, p.start, p.stop⟩ := by
  unfold Lexeme.ofPlaced? at h
  split at h
  · cases h
    rfl
  · cases h
    rfl
  · cases h
    rfl
  · cases h
  · cases h
  · cases h

/-- The lexemes of a source lie in a row from its first byte to its last. -/
theorem lexemes_row :
    Laid file source 0 source.utf8ByteSize (Lexeme.ofSource file source).lexemes := by
  have hspans : (Lexeme.ofSource file source).lexemes.map (·.span) =
      ((Token.lex source).filterMap (Lexeme.ofPlaced? file)).map (·.span) := by
    rw [← (Lexeme.gather_eq file [] (Token.lex source)).1, List.map_map]
    rfl
  rw [Laid, hspans]
  refine .of_pairwise (Nat.zero_le _) (fun span hspan => ?_) ?_
  · obtain ⟨l, hl, rfl⟩ := List.mem_map.mp hspan
    obtain ⟨p, hp, hplaced⟩ := List.mem_filterMap.mp hl
    have hlies := Span.LiesIn.of_shows rfl (placed_shows file source hp)
    rw [span_of_ofPlaced? file hplaced]
    exact ⟨hlies, Nat.zero_le _, hlies.stop_le_size⟩
  · rw [List.pairwise_map, List.pairwise_filterMap]
    refine (Token.tiles_lexFrom 0 source.toList).pairwise.imp fun {p q} hle l hl l' hl' => ?_
    rw [span_of_ofPlaced? file hl, span_of_ofPlaced? file hl']
    exact hle

/-- An error shows the text that it is about, if it is about one. -/
def ShowsText
    (source : String)
    (e : ParseError) : Prop :=
  ∀ text, e.problem = .invalidEscape text ∨ e.problem = .unexpectedCharacter text →
    e.span.Shows source text

/-- Errors of tokens stand in the source, and show their text. -/
theorem lexerError_lies
    {e : ParseError}
    (he : e ∈ (Lexeme.ofSource file source).errors) :
    e.span.LiesIn file source ∧ ShowsText source e := by
  rw [Lexeme.ofSource, (Lexeme.gather_eq file [] _).2] at he
  obtain ⟨p, hp, herror⟩ := List.mem_filterMap.mp he
  unfold Lexeme.error? at herror
  split at herror
  · rename_i c htoken
    cases herror
    have hshows := placed_shows file source hp
    refine ⟨.of_shows rfl hshows, ?_⟩
    rintro text (htext | htext)
    · cases htext
    · cases htext
      have htext : p.text = [c] := by
        obtain ⟨-, before, after, -, -, hpiece⟩ :=
          (Token.tiles_lexFrom 0 source.toList).place p hp
        exact (htoken ▸ hpiece).text_of_stray
      rw [htext] at hshows
      exact hshows
  · cases herror
    refine ⟨.of_shows rfl (placed_shows file source hp), ?_⟩
    rintro text (htext | htext)
    · cases htext
    · cases htext
  · rename_i start stop htoken
    cases herror
    obtain ⟨before, text, after, htext, rfl, rfl, hslice⟩ :=
      Token.invalidEscape_of_mem_lex hp htoken
    obtain ⟨-, first, last, hsource, hstart, -⟩ :=
      (Token.tiles_lexFrom 0 source.toList).place p hp
    have hshows : Span.Shows source ⟨file, p.start + Text.byteLength before,
        p.start + (Text.byteLength before + Text.byteLength text)⟩ (String.ofList text) := by
      refine .of_toList
        (?_ : source.toList = (first ++ before) ++ text ++ (after ++ last)) ?_ ?_
      · rw [hsource, htext]
        simp only [List.append_assoc]
      · rw [Text.byteLength_append, ← hstart]
        simp only [Nat.zero_add]
      · exact (Nat.add_assoc _ _ _).symm
    rw [hslice]
    refine ⟨.of_shows rfl hshows, ?_⟩
    rintro text' (htext' | htext')
    · cases htext'
      exact hshows
    · cases htext'
  · cases herror
  · cases herror
  · cases herror

end Tokens

end Tree
end Schemata
