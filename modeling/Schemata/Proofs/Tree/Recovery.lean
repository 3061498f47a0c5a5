import Schemata.Proofs.Tree.Failure

/-!
# Items after errors

What stands behind an error is read as if it stood alone: after lexemes whose
braces are balanced, however broken they are, the items of what follows come
last and in their order, and no error lies behind its first lexeme.

The argument goes from one loop head of `readItems` to the next, with the part
of the broken lexemes that is left.  An item that cannot be read stops within
that part, since outside of its braces it takes no terminal that begins another
item; recovery skips to the end of the part at the latest.  Only attributes
lead from the part to what follows, and then they belong to its first item.

The first item may lose its documentation.  The fields of a tuple take the
documentation in front of them before they look at what it documents, so this
happens behind an opening parenthesis or a comma.

**Results.** `readItems_resumes`, `ofLexemes_append`.
-/

namespace Schemata
namespace Tree

open Grammar

section Balance

/-- The number of opening braces. -/
def openings
    (part : List Lexeme) :
    Nat :=
  part.countP (·.symbol == .punctuation .openBrace)

/-- The number of closing braces. -/
def closings
    (part : List Lexeme) :
    Nat :=
  part.countP (·.symbol == .punctuation .closeBrace)

/-- Nowhere more braces are closed than opened, and in the end all are closed. -/
structure Balanced
    (part : List Lexeme) : Prop where
  closings_le : ∀ front, front <+: part → closings front ≤ openings front
  closings_eq : closings part = openings part

instance
    (part : List Lexeme) :
    Decidable (Balanced part) :=
  decidable_of_iff
    ((∀ front ∈ part.inits, closings front ≤ openings front) ∧ closings part = openings part)
    ⟨fun h => ⟨fun front hfront => h.1 front ((List.mem_inits _ _).mpr hfront), h.2⟩,
      fun h => ⟨fun front hfront => h.closings_le front ((List.mem_inits _ _).mp hfront),
        h.closings_eq⟩⟩

/-- One lexeme changes the depth by the braces that it opens and closes. -/
theorem depthAfter_add_closings
    {depth : Nat}
    {l : Lexeme}
    (h : closings [l] ≤ depth + openings [l]) :
    Cursor.depthAfter depth l.symbol + closings [l] = depth + openings [l] := by
  simp only [closings, openings, List.countP_singleton, beq_iff_eq] at h ⊢
  by_cases hclose : l.symbol = .punctuation .closeBrace
  · simp only [hclose, if_true, Terminal.punctuation.injEq, reduceCtorEq, if_false] at h ⊢
    simp only [Cursor.depthAfter]
    omega
  · by_cases hopen : l.symbol = .punctuation .openBrace
    · simp [hopen, Cursor.depthAfter]
    · simp [hclose, hopen, Cursor.depthAfter_of_ne hopen hclose]

theorem closings_cons
    (l : Lexeme)
    (part : List Lexeme) :
    closings (l :: part) = closings [l] + closings part := by
  rw [← List.singleton_append, closings, List.countP_append]
  rfl

theorem openings_cons
    (l : Lexeme)
    (part : List Lexeme) :
    openings (l :: part) = openings [l] + openings part := by
  rw [← List.singleton_append, openings, List.countP_append]
  rfl

/-- Lexemes that nowhere close more than was open close no brace but their own and those. -/
theorem calm_of_closings_le
    {depth : Nat}
    {part : List Lexeme}
    (h : ∀ front, front <+: part → closings front ≤ depth + openings front) :
    Calm true depth part ∧ levelAfter depth part + closings part = depth + openings part := by
  induction part generalizing depth with
  | nil =>
      exact ⟨trivial, rfl⟩
  | cons l part ih =>
      have hfirst := h [l] ⟨part, rfl⟩
      have hstep := depthAfter_add_closings hfirst
      have hrest : ∀ front, front <+: part →
          closings front ≤ Cursor.depthAfter depth l.symbol + openings front := by
        intro front hfront
        have hle := h (l :: front) (List.cons_prefix_cons.mpr ⟨rfl, hfront⟩)
        rw [closings_cons, openings_cons] at hle
        omega
      obtain ⟨hcalm, hlevel⟩ := ih hrest
      refine ⟨⟨fun hzero => ⟨fun hclose => ?_, fun hinner => (by cases hinner)⟩, hcalm⟩, ?_⟩
      · simp [closings, openings, hclose, hzero] at hfirst
      · rw [levelAfter_cons, closings_cons, openings_cons]
        omega

/-- Lexemes that take one from outside of all braces to outside of all braces. -/
structure Closed
    (depth : Nat)
    (part : List Lexeme) : Prop where
  calm : Calm true depth part
  level : levelAfter depth part = 0

theorem Balanced.isClosed
    {part : List Lexeme}
    (h : Balanced part) :
    Closed 0 part := by
  obtain ⟨hcalm, hlevel⟩ := calm_of_closings_le (fun front hfront =>
    (h.closings_le front hfront).trans (Nat.le_add_left _ 0))
  exact ⟨hcalm, by have := h.closings_eq; omega⟩

theorem Closed.of_append
    {depth : Nat}
    {p q : List Lexeme}
    (h : Closed depth (p ++ q)) :
    Closed (levelAfter depth p) q :=
  ⟨(calm_append.mp h.calm).2, by rw [← levelAfter_append, h.level]⟩

end Balance

section Skipping

/-- Recovery skips some of what is broken, to a place outside of all braces.  It skips nothing only
in front of what begins like an item. -/
theorem recover_append
    {depth : Nat}
    {part after : List Lexeme}
    (hclosed : Closed depth part)
    (hafter : StartsItem after)
    (last : Span) :
    ∃ skipped left last', part = skipped ++ left ∧ levelAfter depth skipped = 0 ∧
      recover depth last (part ++ after) = (left ++ after, 0, last') ∧
      (skipped = [] → last' = last ∧ StartsItem (part ++ after)) := by
  induction part generalizing depth last with
  | nil =>
      have hzero : depth = 0 := hclosed.level
      obtain ⟨l, rest, rfl, hl⟩ := hafter
      refine ⟨[], [], last, rfl, hzero, ?_, fun _ => ⟨rfl, l, rest, rfl, hl⟩⟩
      rw [List.nil_append, recover, hzero, if_pos (by simpa [startsItem] using hl)]
  | cons l part ih =>
      rw [List.cons_append, recover]
      split
      · rename_i hstop
        rw [Bool.and_eq_true, beq_iff_eq] at hstop
        obtain ⟨rfl, hl⟩ := hstop
        exact ⟨[], l :: part, last, rfl, rfl, rfl, fun _ => ⟨rfl, l, _, rfl, hl⟩⟩
      · dsimp only
        split
        · rename_i hclose
          rw [Bool.and_eq_true, beq_iff_eq, beq_iff_eq] at hclose
          refine ⟨[l], part, l.span, rfl, hclose.2, ?_, fun h => (by cases h)⟩
          rw [hclose.2]
        · have hrest : Closed (Cursor.depthAfter depth l.symbol) part :=
            hclosed.of_append (p := [l])
          obtain ⟨skipped, left, last', rfl, hlevel, hrecover, -⟩ := ih hrest l.span
          exact ⟨l :: skipped, left, last', rfl, hlevel, hrecover, fun h => (by cases h)⟩

/-- A cursor in front of what is broken recovers to what is left of it. -/
theorem Cursor.recovered_append
    {c : Cursor}
    {part after : List Lexeme}
    (hclosed : Closed c.depth part)
    (hafter : StartsItem after)
    (hrest : c.rest = part ++ after) :
    ∃ skipped left, part = skipped ++ left ∧ Closed 0 left ∧
      c.recovered.rest = left ++ after ∧ c.recovered.depth = 0 ∧
      (skipped = [] → c.recovered = c ∧ StartsItem c.rest) := by
  obtain ⟨skipped, left, last', rfl, hlevel, hrecover, hnone⟩ :=
    recover_append hclosed hafter c.last
  have hleft := hclosed.of_append
  rw [hlevel] at hleft
  rw [← hrest] at hrecover
  refine ⟨skipped, left, rfl, hleft, ?_, ?_, ?_⟩
  · rw [recovered, hrecover]
  · rw [recovered, hrecover]
  · rintro rfl
    obtain ⟨hlast, hstarts⟩ := hnone rfl
    refine ⟨?_, hrest ▸ hstarts⟩
    rw [recovered, hrecover, hlast, ← show c.depth = 0 from hlevel]
    obtain ⟨rest, depth, last, eof⟩ := c
    cases hrest
    rfl

/-- Documentation in front is lost by recovery or stays lost. -/
theorem Cursor.recovered_clearDoc
    (c : Cursor) :
    c.clearDoc.recovered = c.recovered ∨
      c.clearDoc.recovered = c.clearDoc ∧ c.recovered = c := by
  obtain ⟨rest, depth, last, eof⟩ := c
  cases rest with
  | nil =>
      exact .inl rfl
  | cons l rest =>
      by_cases hstop : (depth == 0 && (beginsDecl l.symbol || l.symbol == .keyword .useWord)) = true
      · right
        constructor
        · simp only [recovered, clearDoc, recover, if_pos hstop]
        · simp only [recovered, recover, if_pos hstop]
      · left
        simp only [recovered, clearDoc, recover, if_neg hstop]

end Skipping

section Documentation

/-- The item without its documentation. -/
def Item.undocumented : Item → Item
  | .imported i => .imported i
  | .decl d => .decl { d with doc := [] }

/-- The first item, if it was read, without its documentation. -/
def undocumentFirst : List (Except ParseError Item) → List (Except ParseError Item)
  | .ok item :: found => .ok item.undocumented :: found
  | found => found

variable (c : Cursor)

theorem readDeclWith_clearDoc
    (decl : Reader Decl)
    (levels : Nat) :
    readDeclWith decl levels c.clearDoc =
      (readDeclWith decl levels >>= fun d => pure { d with doc := [] }) c := by
  have hclear : c.clearDoc.clearDoc = c.clearDoc ∧ c.clearDoc.doc = [] := by
    obtain ⟨rest, depth, last, eof⟩ := c
    cases rest with
    | nil =>
        exact ⟨rfl, rfl⟩
    | cons l rest =>
        exact ⟨rfl, rfl⟩
  rw [readDeclWith_apply, hclear.1, hclear.2, Cursor.span_clearDoc,
    bind_congr_at _ (readDeclWith_apply decl levels c)]
  simp only [afterWord, bind_assoc, pure_bind]
  rfl

theorem readItem_clearDoc :
    readItem c.clearDoc = (readItem >>= fun item => pure item.undocumented) c := by
  rw [readItem, bind_assoc, get_bind, get_bind, Cursor.isAt_clearDoc]
  by_cases huse : c.isAt (.keyword .useWord) = true
  · rw [if_pos huse, bind_assoc]
    exact bind_congr_at _ (bind_congr_at _ advance_clearDoc)
  · rw [if_neg huse]
    obtain ⟨levels, hdecl⟩ := readDecl_maxNesting
    rw [hdecl, bind_congr_at _ (readDeclWith_clearDoc c _ _)]
    simp only [bind_assoc, pure_bind, Item.undocumented]

/-- Documentation in front that is used up makes a difference only to the first item. -/
theorem readItems_clearDoc
    (rounds : Nat) :
    readItems rounds c.clearDoc = undocumentFirst (readItems rounds c) := by
  cases rounds with
  | zero =>
      rfl
  | succ rounds =>
      have hempty : c.clearDoc.rest.isEmpty = c.rest.isEmpty := by
        rw [Bool.eq_iff_iff, List.isEmpty_iff_length_eq_zero, List.isEmpty_iff_length_eq_zero,
          Cursor.length_rest_clearDoc]
      rw [readItems, readItems, hempty]
      split
      · rfl
      · cases hread : readItem c with
        | ok item next =>
            rw [readItem_clearDoc, bind_of_ok _ hread]
            rfl
        | error e next =>
            rw [readItem_clearDoc, bind_of_error _ hread]
            rfl

end Documentation

section Outcome

/-- Attributes at the end of the first lexemes are added to the declaration that follows. -/
inductive Attached
    (before after : List Lexeme) :
    Item → Item → Prop
  | mk
      {p q : List Lexeme}
      {as : List Attribute}
      {d : Decl}
      {doc : List String}
      (hp : p <:+ before)
      (hne : p ≠ [])
      (hattributes : Many HashAttribute p as)
      (hq : q <+: after)
      (hdecl : DeclWithin maxNesting q d) :
      Attached before after (.decl d)
        (.decl { d with doc, attributes := as ++ d.attributes, span := spanOf (p ++ q) })

/-- What the first item behind lexemes is read as: itself, or with their last attributes, or
without documentation behind what is open. -/
inductive Continues
    (before after : List Lexeme) :
    Item → Item → Prop
  | same
      (item : Item) :
      Continues before after item item
  | attached
      {item item' : Item}
      (h : Attached before after item item') :
      Continues before after item item'
  | undocumented
      (item : Item)
      (h : EndsOpen before) :
      Continues before after item item.undocumented

/-- Errors stand at the first lexemes or at the one that follows them. -/
def ErrorsWithin
    (before after : List Lexeme)
    (found : List (Except ParseError Item)) : Prop :=
  ∀ e, .error e ∈ found → ∃ l ∈ before ++ after.take 1, e.span = l.span

/-- Items come last; if nothing comes before them, the first was reached by attributes. -/
def Resumes
    (before after : List Lexeme)
    (first : Item)
    (rest : List Item)
    (found : List (Except ParseError Item)) : Prop :=
  ∃ pre first', found = pre ++ .ok first' :: rest.map .ok ∧ ErrorsWithin before after pre ∧
    (pre = [] ∧ Attached before after first first' ∨
      pre ≠ [] ∧ Continues before after first first')

/-- From a later place, items are read at once if nothing is left before them, and come last
otherwise. -/
def Reaches
    (before after : List Lexeme)
    (first : Item)
    (rest : List Item)
    (left : List Lexeme)
    (found : List (Except ParseError Item)) : Prop :=
  left = [] ∧ found = (first :: rest).map .ok ∨ Resumes before after first rest found

variable {before after : List Lexeme}
variable {first : Item}
variable {rest : List Item}

theorem Attached.undocumented
    {item item' : Item}
    (h : Attached before after item item') :
    Attached before after item item'.undocumented := by
  cases h with
  | mk hp hne hattributes hq hdecl =>
      exact .mk hp hne hattributes hq hdecl

theorem errorsWithin_ok
    (item : Item) :
    ErrorsWithin before after [.ok item] := by
  intro e he
  simp at he

theorem ErrorsWithin.append
    {p q : List (Except ParseError Item)}
    (hp : ErrorsWithin before after p)
    (hq : ErrorsWithin before after q) :
    ErrorsWithin before after (p ++ q) := by
  intro e he
  rcases List.mem_append.mp he with he | he
  · exact hp e he
  · exact hq e he

/-- An error in front of what is left of the first lexemes. -/
theorem errorsWithin_error
    {e : ParseError}
    {c : Cursor}
    {left : List Lexeme}
    (hspan : e.span = c.span)
    (hrest : c.rest = left ++ after)
    (hleft : left <:+ before)
    (hafter : StartsItem after) :
    ErrorsWithin before after [.error e] := by
  intro e' he
  obtain rfl : e' = e := by
    simpa using he
  cases left with
  | nil =>
      obtain ⟨l, tail, rfl, -⟩ := hafter
      refine ⟨l, by simp, ?_⟩
      rw [hspan, Cursor.span, hrest]
      rfl
  | cons l left =>
      refine ⟨l, List.mem_append_left _ (hleft.subset (by simp)), ?_⟩
      rw [hspan, Cursor.span, hrest]
      rfl

/-- Something before the items. -/
theorem resumes_cons_items
    {x : Except ParseError Item}
    {first' : Item}
    (hx : ErrorsWithin before after [x])
    (h : Continues before after first first') :
    Resumes before after first rest (x :: .ok first' :: rest.map .ok) :=
  ⟨[x], first', rfl, hx, .inr ⟨by simp, h⟩⟩

theorem Resumes.cons
    {x : Except ParseError Item}
    {found : List (Except ParseError Item)}
    (hx : ErrorsWithin before after [x])
    (h : Resumes before after first rest found) :
    Resumes before after first rest (x :: found) := by
  obtain ⟨pre, first', rfl, hwithin, hfirst⟩ := h
  refine ⟨x :: pre, first', rfl, hx.append hwithin, .inr ⟨by simp, ?_⟩⟩
  rcases hfirst with ⟨-, hattached⟩ | ⟨-, hcontinues⟩
  · exact .attached hattached
  · exact hcontinues

theorem Resumes.undocument
    {found : List (Except ParseError Item)}
    (h : Resumes before after first rest found) :
    Resumes before after first rest (undocumentFirst found) := by
  obtain ⟨pre, first', rfl, hwithin, ⟨rfl, hattached⟩ | ⟨hne, hcontinues⟩⟩ := h
  · exact ⟨[], _, rfl, hwithin, .inl ⟨rfl, hattached.undocumented⟩⟩
  · obtain ⟨x, pre, rfl⟩ := List.exists_cons_of_ne_nil hne
    cases x with
    | error e =>
        exact ⟨_, first', rfl, hwithin, .inr ⟨hne, hcontinues⟩⟩
    | ok item =>
        refine ⟨.ok item.undocumented :: pre, first', rfl, ?_, .inr ⟨by simp, hcontinues⟩⟩
        intro e he
        exact hwithin e (by simpa using he)

theorem Reaches.cons
    {x : Except ParseError Item}
    {left : List Lexeme}
    {found : List (Except ParseError Item)}
    (h : Reaches before after first rest left found)
    (hx : ErrorsWithin before after [x]) :
    Resumes before after first rest (x :: found) := by
  rcases h with ⟨-, rfl⟩ | h
  · exact resumes_cons_items hx (.same first)
  · exact h.cons hx

theorem Reaches.cons_undocument
    {x : Except ParseError Item}
    {left : List Lexeme}
    {found : List (Except ParseError Item)}
    (h : Reaches before after first rest left found)
    (hopen : left = [] → EndsOpen before)
    (hx : ErrorsWithin before after [x]) :
    Resumes before after first rest (x :: undocumentFirst found) := by
  rcases h with ⟨hnil, rfl⟩ | h
  · exact resumes_cons_items hx (.undocumented first (hopen hnil))
  · exact h.undocument.cons hx

end Outcome

section Attributes

theorem Grammar.Many.append
    {α : Type}
    {P : Phrase α}
    {p q : List Lexeme}
    {as bs : List α}
    (hp : Many P p as)
    (hq : Many P q bs) :
    Many P (p ++ q) (as ++ bs) := by
  induction hp with
  | nil =>
      exact hq
  | cons h _ ih =>
      rw [List.append_assoc]
      exact .cons h ih

/-- Attributes before a declaration belong to it. -/
theorem decl_of_attributes
    {levels : Nat}
    {p q : List Lexeme}
    {as : List Attribute}
    {d : Decl}
    (hp : Many HashAttribute p as)
    (h : DeclWithin levels q d) :
    DeclWithin levels (p ++ q)
      { d with
        doc := docOf (p ++ q)
        attributes := as ++ d.attributes
        span := spanOf (p ++ q) } := by
  cases levels with
  | zero =>
      exact h.elim
  | succ levels =>
      cases h with
      | mk hpart hattributes hword hname hbody =>
          refine .mk ?_ (hp.append hattributes) hword hname hbody
          rw [hpart]
          simp only [List.append_assoc]

/-- Attributes in front of an import give one error there. -/
theorem readItem_of_use
    {c mid : Cursor}
    {part : List Lexeme}
    {as : List Attribute}
    (hne : part ≠ [])
    (hmany : Many HashAttribute part as)
    (hpass : c.Passes part mid)
    (huse : mid.peek? = some (.keyword .useWord)) :
    ∃ e, readItem c = .error e mid ∧ e.span = mid.span := by
  have hfront : c.peek? = some (.punctuation .hash) := by
    cases hmany with
    | nil =>
        exact absurd rfl hne
    | cons hfirst _ =>
        obtain ⟨hash, tail, rfl, hhash⟩ := starts_hashAttribute hfirst
        exact hhash ▸ hpass.peek?
  have hmid : mid.Avoids [.punctuation .hash] := by
    intro symbol hsymbol hpeek
    rw [huse] at hpeek
    cases hpeek
    simp at hsymbol
  obtain ⟨levels, hdecl⟩ := readDecl_maxNesting
  have hword : readDeclWord mid = .error (unexpected declExpected mid) mid := by
    rw [readDeclWord, get_bind, huse]
    rfl
  refine ⟨unexpected declExpected mid, ?_, span_unexpected _⟩
  rw [readItem, get_bind, if_neg (by simp [Cursor.isAt, hfront]), hdecl]
  refine bind_of_error _ ?_
  rw [readDeclWith_apply, bind_congr_at _ (readAttributes_clearDoc hfront),
    bind_of_ok _ (readAttributes_complete hpass hmany hmid)]
  exact bind_of_error _ hword

end Attributes

theorem EndsOpen.of_suffix
    {p part : List Lexeme}
    (h : EndsOpen p)
    (hp : p <:+ part) :
    EndsOpen part := by
  obtain ⟨front, l, rfl, hl⟩ := h
  obtain ⟨start, rfl⟩ := hp
  exact ⟨start ++ front, l, by simp, hl⟩

/-- A loop head of `readItems`, with what is left of the first lexemes. -/
structure LoopHead
    (before after : List Lexeme)
    (c : Cursor)
    (part : List Lexeme) : Prop where
  isSuffix : part <:+ before
  closed : Closed 0 part
  rest : c.rest = part ++ after
  depth : c.depth = 0

section Steps

variable {before after part : List Lexeme}
variable {c next : Cursor}
variable (hhead : LoopHead before after c part)
variable (hafter : StartsItem after)
include hhead hafter

/-- Attributes before an import give an error there, and the import is next. -/
theorem LoopHead.of_use
    {as : List Attribute}
    (hne : part ≠ [])
    (hmany : Many HashAttribute part as)
    (huse : after.head?.map (·.symbol) = some (.keyword .useWord)) :
    ∃ e next, readItem c = .error e next ∧ ErrorsWithin before after [.error e] ∧
      LoopHead before after next.recovered [] := by
  obtain ⟨mid, hpass, hmid⟩ := Cursor.exists_passes hhead.rest
  obtain ⟨e, hread, hspan⟩ := readItem_of_use hne hmany hpass (by rw [Cursor.peek?, hmid, huse])
  have hclosed : Closed mid.depth [] := by
    refine ⟨trivial, ?_⟩
    rw [hpass.depth, hhead.depth, levelAfter_hashAttributes hmany]
    rfl
  obtain ⟨skipped, left, hnil, hclosed', hrest, hdepth, -⟩ :=
    Cursor.recovered_append hclosed hafter hmid
  obtain rfl := (List.append_eq_nil_iff.mp hnil.symm).2
  refine ⟨e, mid, hread, ?_, List.nil_suffix, hclosed', hrest, hdepth⟩
  exact errorsWithin_error hspan (List.nil_append after ▸ hmid) List.nil_suffix hafter

variable (hnone : ¬∃ as, Many HashAttribute part as)
include hnone

/-- An item that is read leads to the next loop head. -/
theorem LoopHead.of_ok
    {item : Item}
    (hread : readItem c = .ok item next) :
    ∃ left, LoopHead before after next left ∧ left.length < part.length := by
  obtain ⟨p, hp, hpass, hheaded, hlevel⟩ := readItem_ok hread
  obtain ⟨left, rfl, hrest⟩ :=
    hheaded.exists_append (hhead.rest ▸ hpass.rest) hhead.closed.level hafter hnone
  have hclosed := hhead.closed.of_append
  rw [hlevel] at hclosed
  refine ⟨left, ⟨(List.suffix_append p left).trans hhead.isSuffix, hclosed, hrest, ?_⟩, ?_⟩
  · rw [hpass.depth, hhead.depth, hlevel]
  · have := List.length_pos_of_ne_nil hp
    rw [List.length_append]
    omega

/-- An error leads to the next loop head, by recovery.  If that stands at what follows and its
documentation is lost, then something is open in front of it. -/
theorem LoopHead.of_error
    {e : ParseError}
    (hne : part ≠ [])
    (hread : readItem c = .error e next) :
    ∃ left c', LoopHead before after c' left ∧ left.length < part.length ∧
      ErrorsWithin before after [.error e] ∧
      (next.recovered = c' ∨ next.recovered = c'.clearDoc ∧ (left = [] → EndsOpen before)) := by
  obtain ⟨p, stop, hpass, hheaded, hspan, hstill, hnext⟩ := readItem_error hread
  obtain ⟨tail, rfl, htail⟩ :=
    hheaded.exists_append (hhead.rest ▸ hpass.rest) hhead.closed.level hafter hnone
  have hstop : Closed stop.depth tail := by
    rw [hpass.depth, hhead.depth]
    exact hhead.closed.of_append
  have hsuffix := (List.suffix_append p tail).trans hhead.isSuffix
  obtain ⟨skipped, left, rfl, hclosed, hrest, hdepth, hskip⟩ :=
    Cursor.recovered_append hstop hafter htail
  refine ⟨left, stop.recovered,
    ⟨(List.suffix_append skipped left).trans hsuffix, hclosed, hrest, hdepth⟩, ?_,
    errorsWithin_error hspan htail hsuffix hafter, ?_⟩
  · -- without progress, an item would begin in front of the reader that took nothing
    by_contra hnot
    obtain ⟨rfl, rfl⟩ : p = [] ∧ skipped = [] := by
      rw [List.length_append, List.length_append] at hnot
      exact ⟨List.eq_nil_of_length_eq_zero (by omega), List.eq_nil_of_length_eq_zero (by omega)⟩
    obtain rfl : stop = c := hpass
    exact hstill rfl (hskip rfl).2
  · rcases hnext with rfl | ⟨rfl, hclears⟩
    · exact .inl rfl
    · rcases Cursor.recovered_clearDoc stop with heq | ⟨heq, hsame⟩
      · exact .inl heq
      · refine .inr ⟨by rw [heq, hsame], ?_⟩
        rintro rfl
        obtain rfl : skipped = [] := by
          rw [hsame, htail] at hrest
          simpa using hrest
        rw [List.append_nil, List.append_nil] at hhead hne
        rcases hclears with hnil | hlevel | hopen
        · exact absurd hnil hne
        · rw [hhead.closed.level] at hlevel
          cases hlevel
        · exact hopen.of_suffix hhead.isSuffix

end Steps

section Resumption

variable {before after : List Lexeme}
variable {first : Item}
variable {rest : List Item}
variable (hafter : Many FileItem after (first :: rest))
include hafter

theorem startsItem_of_items :
    StartsItem after := by
  cases hafter with
  | cons hitem _ =>
      obtain ⟨l, tail, rfl, hl⟩ := starts_fileItem hitem
      exact ⟨l, _, rfl, by simpa [startsItem] using hl⟩

/-- Attributes lead from the first lexemes to a declaration, or give an error at an import. -/
theorem resumes_of_attributes
    {part : List Lexeme}
    {as : List Attribute}
    {c : Cursor}
    {rounds : Nat}
    (hhead : LoopHead before after c part)
    (hne : part ≠ [])
    (hmany : Many HashAttribute part as)
    (hrounds : c.rest.length < rounds) :
    Resumes before after first rest (readItems rounds c) := by
  have hstarts := startsItem_of_items hafter
  have hitems := hafter
  cases hafter with
  | @cons p q _ _ hitem hlater =>
      cases hitem with
      | decl hdecl =>
          have hall := Many.cons (FileItem.decl (decl_of_attributes hmany hdecl)) hlater
          rw [List.append_assoc, ← hhead.rest] at hall
          rw [readItems_complete hall rounds hrounds]
          exact ⟨[], _, rfl, by simp [ErrorsWithin],
            .inl ⟨rfl, .mk hhead.isSuffix hne hmany ⟨q, rfl⟩ hdecl⟩⟩
      | imported huse =>
          obtain ⟨l, tail, rfl, hl⟩ := starts_use huse
          obtain ⟨e, next, hread, hwithin, hnext⟩ :=
            hhead.of_use hstarts hne hmany (congrArg some hl)
          obtain ⟨rounds, rfl⟩ : ∃ n, rounds = n + 1 := ⟨rounds - 1, by omega⟩
          have hrounds' : next.recovered.rest.length < rounds := by
            have := List.length_pos_of_ne_nil hne
            rw [hhead.rest, List.length_append] at hrounds
            rw [hnext.rest, List.nil_append]
            omega
          rw [readItems, if_neg (by simp [hhead.rest]), hread]
          dsimp only
          rw [readItems_complete (hnext.rest ▸ hitems) rounds hrounds']
          exact resumes_cons_items hwithin (.same _)

/-- From each loop head before the end of the first lexemes, what follows them is reached. -/
theorem readItems_resumes
    {part : List Lexeme}
    {c : Cursor}
    {rounds : Nat}
    (hhead : LoopHead before after c part)
    (hne : part ≠ [])
    (hrounds : c.rest.length < rounds) :
    Resumes before after first rest (readItems rounds c) := by
  have hstarts := startsItem_of_items hafter
  -- on what is left: each step leaves less, and attributes up to the end are the last step
  induction hlength : part.length using Nat.strong_induction_on generalizing part c rounds with
  | _ n ih =>
      subst hlength
      by_cases hnone : ∃ as, Many HashAttribute part as
      · obtain ⟨as, hmany⟩ := hnone
        exact resumes_of_attributes hafter hhead hne hmany hrounds
      · obtain ⟨rounds, rfl⟩ : ∃ n, rounds = n + 1 := ⟨rounds - 1, by omega⟩
        have hlater : ∀ {left c'}, LoopHead before after c' left → left.length < part.length →
            Reaches before after first rest left (readItems rounds c') := by
          intro left c' hhead' hshorter
          have hrounds' : c'.rest.length < rounds := by
            rw [hhead.rest, List.length_append] at hrounds
            rw [hhead'.rest, List.length_append]
            omega
          by_cases hnil : left = []
          · subst hnil
            exact .inl ⟨rfl, readItems_complete (hhead'.rest ▸ hafter) rounds hrounds'⟩
          · exact .inr (ih _ hshorter hhead' hnil hrounds' rfl)
        rw [readItems, if_neg (by simp [hhead.rest, hne])]
        cases hread : readItem c with
        | ok item next =>
            obtain ⟨left, hhead', hshorter⟩ := hhead.of_ok hstarts hnone hread
            exact (hlater hhead' hshorter).cons (errorsWithin_ok item)
        | error e next =>
            obtain ⟨left, c', hhead', hshorter, hwithin, hnext⟩ :=
              hhead.of_error hstarts hnone hne hread
            dsimp only
            rcases hnext with heq | ⟨heq, hopen⟩
            · rw [heq]
              exact (hlater hhead' hshorter).cons hwithin
            · rw [heq, readItems_clearDoc]
              exact (hlater hhead' hshorter).cons_undocument hopen hwithin

end Resumption

/-- Behind lexemes with balanced braces, items are read as if they stood alone: all but the first
as they are, the first one up to attributes before it and lost documentation, and with no error
behind the first lexeme. -/
theorem ofLexemes_append
    {file size : Nat}
    {before after : List Lexeme}
    (hbalanced : Balanced before)
    (hne : after ≠ [])
    (hclean : (ofLexemes file size after).filterMap Item.error? = []) :
    ∃ (first : Item) (rest : List Item), ofLexemes file size after = .ok first :: rest.map .ok ∧
      ∀ file' size', ∃ pre first',
        ofLexemes file' size' (before ++ after) = pre ++ .ok first' :: rest.map .ok ∧
          Continues before after first first' ∧ ErrorsWithin before after pre := by
  obtain ⟨items, hitems⟩ := exists_items hclean
  have hafter := (ofLexemes_eq_iff file size after items).mp hitems
  cases items with
  | nil =>
      cases hafter
      exact absurd rfl hne
  | cons first rest =>
      refine ⟨first, rest, hitems, fun file' size' => ?_⟩
      by_cases hnil : before = []
      · subst hnil
        refine ⟨[], first, ?_, .same first, by simp [ErrorsWithin]⟩
        exact (ofLexemes_eq_iff file' size' after _).mpr hafter
      · obtain ⟨pre, first', hfound, hwithin, hfirst⟩ :=
          readItems_resumes hafter
            (c := ⟨before ++ after, 0, ⟨file', 0, 0⟩, ⟨file', size', size'⟩⟩)
            ⟨List.suffix_refl before, hbalanced.isClosed, rfl, rfl⟩ hnil (Nat.lt_succ_self _)
        refine ⟨pre, first', hfound, ?_, hwithin⟩
        rcases hfirst with ⟨-, hattached⟩ | ⟨-, hcontinues⟩
        · exact .attached hattached
        · exact hcontinues

/-- The lexemes of a broken declaration, of a dangling attribute and of two whole items. -/
def Sample.brokenThenWhole : List Lexeme :=
  (Lexeme.ofSource 0 "type A { x y } #[z] enum B {} use c;").lexemes

theorem ofLexemes_append_broken :
    Balanced (Sample.brokenThenWhole.take 10) ∧
      ∃ (first : Item) (rest : List Item),
        ofLexemes 0 36 (Sample.brokenThenWhole.drop 10) = .ok first :: rest.map .ok ∧
        ∀ file' size', ∃ pre first',
          ofLexemes file' size' (Sample.brokenThenWhole.take 10 ++ Sample.brokenThenWhole.drop 10) =
            pre ++ .ok first' :: rest.map .ok ∧
            Continues (Sample.brokenThenWhole.take 10) (Sample.brokenThenWhole.drop 10)
              first first' ∧
            ErrorsWithin (Sample.brokenThenWhole.take 10) (Sample.brokenThenWhole.drop 10) pre := by
  have hbalanced : Balanced (Sample.brokenThenWhole.take 10) := by decide +kernel
  have hclean : (ofLexemes 0 36 (Sample.brokenThenWhole.drop 10)).filterMap Item.error? = [] := by
    decide +kernel
  have hne : Sample.brokenThenWhole.drop 10 ≠ [] := by
    decide +kernel
  exact ⟨hbalanced, ofLexemes_append hbalanced hne hclean⟩

/-- A tuple that is not closed, and a documented declaration. -/
def Sample.openThenDocumented : List Lexeme :=
  (Lexeme.ofSource 0 "tuple A (\n/// d\ntype B {}").lexemes

/-- Behind a parenthesis that is not closed, a declaration loses its documentation, though no
attributes stand before it. -/
theorem exists_lost_documentation :
    Balanced (Sample.openThenDocumented.take 3) ∧
      (¬∃ p as, p <:+ Sample.openThenDocumented.take 3 ∧ p ≠ [] ∧ Many HashAttribute p as) ∧
      Sample.openThenDocumented.drop 3 ≠ [] ∧
      (ofLexemes 0 25 (Sample.openThenDocumented.drop 3)).filterMap Item.error? = [] ∧
      ¬∃ pre, ofLexemes 0 25 Sample.openThenDocumented =
        pre ++ ofLexemes 0 25 (Sample.openThenDocumented.drop 3) := by
  refine ⟨by decide +kernel, ?_, ?_, by decide +kernel, ?_⟩
  · rintro ⟨p, as, hp, hne, hmany⟩
    have hplain : ∀ l ∈ Sample.openThenDocumented.take 3, l.symbol ≠ .punctuation .hash := by
      decide +kernel
    cases hmany with
    | nil =>
        exact hne rfl
    | cons hfirst _ =>
        obtain ⟨hash, tail, rfl, hhash⟩ := starts_hashAttribute hfirst
        exact hplain hash (hp.subset (by simp)) hhash
  · decide +kernel
  · rintro ⟨pre, hpre⟩
    have hlost : ((ofLexemes 0 25 Sample.openThenDocumented).getLast?.bind Item.decl?).map
        (·.doc) = some [] := by
      decide +kernel
    have hkept : ((ofLexemes 0 25 (Sample.openThenDocumented.drop 3)).getLast?.bind
        Item.decl?).map (·.doc) = some ["d"] := by
      decide +kernel
    have hne : ofLexemes 0 25 (Sample.openThenDocumented.drop 3) ≠ [] := by
      intro hnil
      rw [hnil] at hkept
      cases hkept
    rw [hpre, List.getLast?_append_of_ne_nil _ hne, hkept] at hlost
    cases hlost

end Tree
end Schemata
