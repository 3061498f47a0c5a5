import Schemata.Proofs.Tree.Cursor

/-!
# How far readers go

A reader that fails leaves the cursor where it failed.  This module says what
can lie before that place, for each reader and each run, whether it succeeds or
not: braces that it closes it has opened itself, and outside of its own braces
it takes no terminal that begins an item of a file.  A reader that succeeds has
closed all that it opened.

Errors stand at the lexeme in front of the cursor.  A reader may have used up
the documentation of that lexeme; outside of braces this happens only behind an
opening parenthesis or a comma, where the fields of a tuple are read.

Readers inside of braces may take any terminal at their own level, so there
are three kinds of sites for a reader, `Site`.

**Results.** `readTypeExpr_stays`, `readBody_stays`, `readDecl_stays`.
-/

namespace Schemata
namespace Tree

/-- The terminal begins an item of a file. -/
def startsItem
    (symbol : Terminal) :
    Bool :=
  beginsDecl symbol || symbol == .keyword .useWord

/-- The braces that are open after lexemes. -/
def levelAfter
    (depth : Nat)
    (part : List Lexeme) :
    Nat :=
  part.foldl (fun depth l => Cursor.depthAfter depth l.symbol) depth

section Levels

@[simp] theorem levelAfter_nil
    (depth : Nat) :
    levelAfter depth [] = depth :=
  rfl

@[simp] theorem levelAfter_cons
    (depth : Nat)
    (l : Lexeme)
    (part : List Lexeme) :
    levelAfter depth (l :: part) = levelAfter (Cursor.depthAfter depth l.symbol) part :=
  rfl

@[simp] theorem levelAfter_append
    (depth : Nat)
    (p q : List Lexeme) :
    levelAfter depth (p ++ q) = levelAfter (levelAfter depth p) q :=
  List.foldl_append

theorem Cursor.depthAfter_of_ne
    {depth : Nat}
    {symbol : Terminal}
    (hopen : symbol ≠ .punctuation .openBrace)
    (hclose : symbol ≠ .punctuation .closeBrace) :
    Cursor.depthAfter depth symbol = depth := by
  unfold Cursor.depthAfter
  split
  · exact absurd rfl hopen
  · exact absurd rfl hclose
  · rfl

theorem Cursor.Passes.depth
    {c c' : Cursor}
    {part : List Lexeme}
    (h : c.Passes part c') :
    c'.depth = levelAfter c.depth part := by
  induction part generalizing c with
  | nil =>
      rw [passes_nil.mp h, levelAfter_nil]
  | cons l part ih =>
      have hdepth : c.bump.depth = Cursor.depthAfter c.depth l.symbol := by
        unfold Cursor.bump
        rw [h.rest]
        rfl
      rw [ih h.2, hdepth, levelAfter_cons]

end Levels

/-- Lexemes that close no brace which they have not opened.  If they are not `inner` ones, then
none of them begins an item outside of their braces. -/
def Calm
    (inner : Bool) :
    Nat → List Lexeme → Prop
  | _, [] => True
  | depth, l :: part =>
      (depth = 0 →
        l.symbol ≠ .punctuation .closeBrace ∧ (inner = false → startsItem l.symbol = false)) ∧
        Calm inner (Cursor.depthAfter depth l.symbol) part

section Calm

variable {inner : Bool}
variable {depth : Nat}

theorem calm_append
    {p q : List Lexeme} :
    Calm inner depth (p ++ q) ↔ Calm inner depth p ∧ Calm inner (levelAfter depth p) q := by
  induction p generalizing depth with
  | nil =>
      simp [Calm]
  | cons l p ih =>
      simp only [List.cons_append, Calm, ih, levelAfter_cons, and_assoc]

theorem Calm.inside
    {part : List Lexeme}
    (h : Calm inner depth part) :
    Calm true depth part := by
  induction part generalizing depth with
  | nil =>
      trivial
  | cons l part ih =>
      exact ⟨fun hzero => ⟨(h.1 hzero).1, fun hinner => (by cases hinner)⟩, ih h.2⟩

/-- Inside of one more brace, calm lexemes never come out of it. -/
theorem Calm.shift
    {part : List Lexeme}
    (h : Calm inner depth part)
    (inner' : Bool) :
    Calm inner' (depth + 1) part ∧ levelAfter (depth + 1) part = levelAfter depth part + 1 := by
  induction part generalizing depth with
  | nil =>
      exact ⟨trivial, rfl⟩
  | cons l part ih =>
      have hdepth : Cursor.depthAfter (depth + 1) l.symbol =
          Cursor.depthAfter depth l.symbol + 1 := by
        by_cases hclose : l.symbol = .punctuation .closeBrace
        · have hpositive : depth ≠ 0 := fun hzero => (h.1 hzero).1 hclose
          rw [hclose]
          simp only [Cursor.depthAfter]
          omega
        · by_cases hopen : l.symbol = .punctuation .openBrace
          · rw [hopen]
            rfl
          · rw [Cursor.depthAfter_of_ne hopen hclose, Cursor.depthAfter_of_ne hopen hclose]
      obtain ⟨hcalm, hlevel⟩ := ih h.2
      rw [levelAfter_cons, levelAfter_cons, hdepth]
      refine ⟨⟨fun hzero => by omega, ?_⟩, hlevel⟩
      rw [hdepth]
      exact hcalm

end Calm

/-- Where a reader runs. -/
inductive Site where
  /-- Between braces. -/
  | inside
  /-- Outside of braces, behind an opening parenthesis or a comma. -/
  | listed
  /-- Outside of braces. -/
  | outside
deriving DecidableEq

namespace Site

/-- Only a reader inside of braces may take all terminals at its own level. -/
def inner : Site → Bool
  | inside => true
  | listed | outside => false

/-- The site of what runs next. -/
def later : Site → Site
  | inside => inside
  | listed | outside => outside

end Site

/-- Lexemes that end in an opening parenthesis or a comma. -/
def EndsOpen
    (part : List Lexeme) : Prop :=
  ∃ front l, part = front ++ [l] ∧
    (l.symbol = .punctuation .openParen ∨ l.symbol = .punctuation .comma)

/-- Behind these lexemes, a reader may use up documentation and fail. -/
def Site.Clears
    (depth : Nat)
    (part : List Lexeme) :
    Site → Prop
  | .inside => True
  | .listed => part = [] ∨ 0 < levelAfter depth part ∨ EndsOpen part
  | .outside => 0 < levelAfter depth part ∨ EndsOpen part

/-- A run from a cursor takes calm lexemes from one depth to another, or fails after some, with an
error at the lexeme in front. -/
def Stays
    {α : Type}
    (site : Site)
    (depth depth' : Nat)
    (c : Cursor) :
    EStateM.Result ParseError Cursor α → Prop
  | .ok _ c' =>
      ∃ part, c.Passes part c' ∧ Calm site.inner depth part ∧ levelAfter depth part = depth'
  | .error e c' =>
      ∃ part stop, c.Passes part stop ∧ Calm site.inner depth part ∧ e.span = stop.span ∧
        (c' = stop ∨ c' = stop.clearDoc ∧ site.Clears depth part)

/-- A reader that stays where it is, at each depth. -/
def Guarded
    {α : Type}
    (site : Site)
    (r : Reader α) : Prop :=
  ∀ depth c, Stays site depth depth c (r c)

section Composition

variable {α β : Type}
variable {site : Site}
variable {c : Cursor}

theorem Site.Clears.inside
    {depth : Nat}
    {part : List Lexeme}
    (h : Site.outside.Clears depth part)
    (site : Site) :
    site.Clears depth part := by
  cases site with
  | inside =>
      trivial
  | listed =>
      exact .inr h
  | outside =>
      exact h

/-- What was passed before does not matter to what may be used up after it. -/
theorem Site.Clears.append
    {depth : Nat}
    {p q : List Lexeme}
    (h : site.later.Clears (levelAfter depth p) q) :
    site.Clears depth (p ++ q) := by
  have hopen : Site.outside.Clears (levelAfter depth p) q →
      Site.outside.Clears depth (p ++ q) := by
    rintro (hlevel | ⟨front, l, rfl, hl⟩)
    · exact .inl (by rwa [levelAfter_append])
    · exact .inr ⟨p ++ front, l, (List.append_assoc _ _ _).symm, hl⟩
  cases site with
  | inside =>
      trivial
  | listed =>
      exact .inr (hopen h)
  | outside =>
      exact hopen h

theorem Site.inner_later :
    site.later.inner = site.inner := by
  cases site with
  | inside | listed | outside =>
      rfl

/-- One run after another. -/
theorem Stays.append
    {depth depth' depth'' : Nat}
    {mid : Cursor}
    {p : List Lexeme}
    {result : EStateM.Result ParseError Cursor β}
    (hpass : c.Passes p mid)
    (hcalm : Calm site.inner depth p)
    (hlevel : levelAfter depth p = depth')
    (h : Stays site.later depth' depth'' mid result) :
    Stays site depth depth'' c result := by
  subst hlevel
  cases result with
  | ok b c' =>
      obtain ⟨q, hq, hcalm', hlevel⟩ := h
      rw [Site.inner_later] at hcalm'
      exact ⟨p ++ q, hpass.append hq, calm_append.mpr ⟨hcalm, hcalm'⟩,
        by rwa [levelAfter_append]⟩
  | error e c' =>
      obtain ⟨q, stop, hq, hcalm', hspan, hstop⟩ := h
      rw [Site.inner_later] at hcalm'
      refine ⟨p ++ q, stop, hpass.append hq, calm_append.mpr ⟨hcalm, hcalm'⟩, hspan, ?_⟩
      exact hstop.imp_right fun hstop => ⟨hstop.1, hstop.2.append⟩

theorem Stays.bind
    {depth depth' depth'' : Nat}
    {r : Reader α}
    {f : α → Reader β}
    (hr : Stays site depth depth' c (r c))
    (hf : ∀ a c', Stays site.later depth' depth'' c' (f a c')) :
    Stays site depth depth'' c ((r >>= f) c) := by
  cases hrun : r c with
  | ok a c' =>
      rw [hrun] at hr
      obtain ⟨p, hpass, hcalm, hlevel⟩ := hr
      rw [bind_of_ok f hrun]
      exact Stays.append hpass hcalm hlevel (hf a c')
  | error e c' =>
      rw [hrun] at hr
      rw [bind_of_error f hrun]
      exact hr

theorem Stays.of_outside
    {depth depth' : Nat}
    {result : EStateM.Result ParseError Cursor α}
    (h : Stays .outside depth depth' c result)
    (site : Site) :
    Stays site depth depth' c result := by
  have hcalm : ∀ {part}, Calm false depth part → Calm site.inner depth part := by
    intro part hpart
    cases site with
    | inside =>
        exact hpart.inside
    | listed | outside =>
        exact hpart
  cases result with
  | ok a c' =>
      obtain ⟨part, hpass, hpart, hlevel⟩ := h
      exact ⟨part, hpass, hcalm hpart, hlevel⟩
  | error e c' =>
      obtain ⟨part, stop, hpass, hpart, hspan, hstop⟩ := h
      exact ⟨part, stop, hpass, hcalm hpart, hspan,
        hstop.imp_right fun hstop => ⟨hstop.1, hstop.2.inside site⟩⟩

theorem Stays.inside
    {depth depth' : Nat}
    {result : EStateM.Result ParseError Cursor α}
    (h : Stays site depth depth' c result) :
    Stays .inside depth depth' c result := by
  cases result with
  | ok a c' =>
      obtain ⟨part, hpass, hpart, hlevel⟩ := h
      exact ⟨part, hpass, hpart.inside, hlevel⟩
  | error e c' =>
      obtain ⟨part, stop, hpass, hpart, hspan, hstop⟩ := h
      exact ⟨part, stop, hpass, hpart.inside, hspan,
        hstop.imp_right fun hstop => ⟨hstop.1, trivial⟩⟩

/-- Inside of one more brace, a run does not come out of it. -/
theorem Stays.shift
    {depth depth' : Nat}
    {result : EStateM.Result ParseError Cursor α}
    (h : Stays site depth depth' c result) :
    Stays .outside (depth + 1) (depth' + 1) c result := by
  cases result with
  | ok a c' =>
      obtain ⟨part, hpass, hpart, rfl⟩ := h
      exact ⟨part, hpass, (hpart.shift false).1, (hpart.shift false).2⟩
  | error e c' =>
      obtain ⟨part, stop, hpass, hpart, hspan, hstop⟩ := h
      obtain ⟨hcalm, hlevel⟩ := hpart.shift false
      refine ⟨part, stop, hpass, hcalm, hspan, hstop.imp_right fun hstop => ⟨hstop.1, .inl ?_⟩⟩
      omega

theorem Guarded.of_outside
    {r : Reader α}
    (h : Guarded .outside r)
    (site : Site) :
    Guarded site r :=
  fun depth c => (h depth c).of_outside site

/-- What stays outside of braces also stays behind a parenthesis or a comma. -/
theorem Guarded.listed
    {r : Reader α}
    (h : Guarded site r)
    (hsite : site.later = .outside) :
    Guarded .listed r := by
  cases site with
  | inside =>
      cases hsite
  | listed =>
      exact h
  | outside =>
      exact h.of_outside .listed

theorem Guarded.inside
    {r : Reader α}
    (h : Guarded site r) :
    Guarded .inside r :=
  fun depth c => (h depth c).inside

theorem Guarded.bind
    {r : Reader α}
    {f : α → Reader β}
    (hr : Guarded site r)
    (hf : ∀ a, Guarded site.later (f a)) :
    Guarded site (r >>= f) :=
  fun depth c => (hr depth c).bind fun a c' => hf a depth c'

theorem Guarded.get_bind
    {f : Cursor → Reader α}
    (hf : ∀ c, Guarded site (f c)) :
    Guarded site (get >>= f) :=
  fun depth c => hf c depth c

theorem guarded_pure
    (a : α) :
    Guarded site (pure a : Reader α) :=
  fun _ _ => ⟨[], rfl, trivial, rfl⟩

end Composition

section Steps

variable {α : Type}
variable {site : Site}
variable {c : Cursor}

theorem span_unexpected
    (expected : String) :
    (unexpected expected c).span = c.span := by
  obtain ⟨rest, depth, last, eof⟩ := c
  cases rest with
  | nil =>
      rfl
  | cons l rest =>
      rfl

/-- A failure at the lexeme in front. -/
theorem stays_error
    {e : ParseError}
    (he : e.span = c.span)
    (depth depth' : Nat) :
    Stays site depth depth' c (.error e c : EStateM.Result ParseError Cursor α) :=
  ⟨[], c, rfl, trivial, he, .inl rfl⟩

theorem stays_failExpecting
    (expected : String)
    (depth depth' : Nat) :
    Stays site depth depth' c ((failExpecting expected : Reader α) c) :=
  stays_error (span_unexpected expected) depth depth'

/-- Neither a brace nor the beginning of an item. -/
def Plain
    (symbol : Terminal) :
    Bool :=
  symbol != .punctuation .openBrace && symbol != .punctuation .closeBrace && !startsItem symbol

theorem calm_plain
    {l : Lexeme}
    (h : Plain l.symbol = true)
    (inner : Bool)
    (depth : Nat) :
    Calm inner depth [l] ∧ levelAfter depth [l] = depth := by
  simp only [Plain, Bool.and_eq_true, bne_iff_ne, ne_eq, Bool.not_eq_true'] at h
  obtain ⟨⟨hopen, hclose⟩, hstart⟩ := h
  exact ⟨⟨fun _ => ⟨hclose, fun _ => hstart⟩, trivial⟩, Cursor.depthAfter_of_ne hopen hclose⟩

/-- The lexeme in front is taken, and then something else runs. -/
theorem stays_bump
    {symbol : Terminal}
    {depth : Nat}
    {next : Reader α}
    (hpeek : c.peek? = some symbol)
    (hplain : Plain symbol = true)
    (h : ∀ c', Stays site.later depth depth c' (next c')) :
    Stays site depth depth c (next c.bump) := by
  obtain ⟨l, rfl, hpass⟩ := Cursor.exists_passes_of_peek? hpeek
  obtain ⟨hcalm, hlevel⟩ := calm_plain hplain site.inner depth
  exact Stays.append hpass hcalm hlevel (h c.bump)

theorem stays_advance
    {symbol : Terminal}
    {f : Span → α}
    (hpeek : c.peek? = some symbol)
    (hplain : Plain symbol = true)
    (depth : Nat) :
    Stays site depth depth c ((advance >>= fun span => pure (f span)) c) := by
  rw [bind_of_ok _ advance_apply]
  exact stays_bump hpeek hplain fun c' => guarded_pure (f c.bump.last) depth c'

/-- A terminal that is taken leads from one depth to another. -/
theorem stays_expect
    {symbol : Terminal}
    {depth depth' : Nat}
    (expected : String)
    (hcalm : ∀ l : Lexeme, l.symbol = symbol → Calm site.inner depth [l])
    (hlevel : Cursor.depthAfter depth symbol = depth') :
    Stays site depth depth' c (expect symbol expected c) := by
  by_cases hpeek : c.peek? = some symbol
  · obtain ⟨l, rfl, hpass⟩ := Cursor.exists_passes_of_peek? hpeek
    rw [expect_of_passes expected rfl hpass]
    exact ⟨[l], hpass, hcalm l rfl, hlevel⟩
  · rw [expect, get_bind, if_neg (by simpa [Cursor.isAt] using hpeek)]
    exact stays_failExpecting expected depth depth'

theorem guarded_expect
    {symbol : Terminal}
    (expected : String)
    (hplain : Plain symbol = true) :
    Guarded site (expect symbol expected) := by
  intro depth c
  refine stays_expect expected ?_ ?_
  · rintro l rfl
    exact (calm_plain hplain site.inner depth).1
  · exact (calm_plain (l := ⟨symbol, default, []⟩) hplain site.inner depth).2

theorem guarded_expectMark
    {mark : Punctuation}
    (hplain : Plain (.punctuation mark) = true) :
    Guarded site (expectMark mark) :=
  guarded_expect _ hplain

theorem stays_openBrace
    (depth : Nat) :
    Stays site depth (depth + 1) c (expectMark .openBrace c) := by
  refine stays_expect _ ?_ rfl
  intro l hl
  refine ⟨fun _ => ?_, trivial⟩
  rw [hl]
  exact ⟨by simp, fun _ => rfl⟩

theorem stays_closeBrace
    (depth : Nat) :
    Stays site (depth + 1) depth c (expectMark .closeBrace c) :=
  stays_expect _ (fun _ _ => ⟨fun hzero => (by cases hzero), trivial⟩) rfl

theorem guarded_eat
    {symbol : Terminal}
    (hplain : Plain symbol = true) :
    Guarded site (eat symbol) := by
  intro depth c
  by_cases hpeek : c.peek? = some symbol
  · obtain ⟨l, rfl, hpass⟩ := Cursor.exists_passes_of_peek? hpeek
    rw [eat_of_passes rfl hpass]
    exact ⟨[l], hpass, calm_plain hplain site.inner depth⟩
  · rw [eat_of_ne hpeek]
    exact ⟨[], rfl, trivial, rfl⟩

theorem guarded_after
    {symbol : Terminal}
    {step : Reader α}
    (hplain : Plain symbol = true)
    (hstep : Guarded site.later step) :
    Guarded site (after symbol step) := by
  refine (guarded_eat hplain).bind fun taken => ?_
  cases taken with
  | false =>
      exact guarded_pure none
  | true =>
      refine Guarded.bind hstep fun a => ?_
      exact guarded_pure (some a)

/-- Behind an opening parenthesis or a comma, a list may be read. -/
theorem guarded_eat_listed
    {mark : Punctuation}
    {x y : Reader α}
    (hmark : mark = .openParen ∨ mark = .comma)
    (hx : Guarded .listed x)
    (hy : Guarded .outside y) :
    Guarded .outside (eatMark mark >>= fun taken => if taken = true then x else y) := by
  intro depth c
  rw [eatMark]
  by_cases hpeek : c.peek? = some (.punctuation mark)
  · obtain ⟨l, hl, hpass⟩ := Cursor.exists_passes_of_peek? hpeek
    have hplain : Plain l.symbol = true := by
      rw [hl]
      rcases hmark with rfl | rfl
      · rfl
      · rfl
    obtain ⟨hcalm, hlevel⟩ := calm_plain hplain false depth
    rw [bind_of_ok _ (eat_of_passes hl hpass), if_pos rfl]
    have hrun := hx depth c.bump
    cases hresult : x c.bump with
    | ok a c' =>
        rw [hresult] at hrun
        exact Stays.append hpass hcalm hlevel hrun
    | error e c' =>
        rw [hresult] at hrun
        obtain ⟨part, stop, hpart, hcalm', hspan, hstop⟩ := hrun
        refine ⟨l :: part, stop, hpass.append hpart,
          calm_append.mpr ⟨hcalm, by rwa [hlevel]⟩, hspan, hstop.imp_right ?_⟩
        rintro ⟨rfl, hclears⟩
        refine ⟨rfl, ?_⟩
        -- behind the mark itself, or further on for a reason of its own
        rcases hclears with rfl | hclears
        · refine .inr ⟨[], l, rfl, ?_⟩
          rw [hl, Terminal.punctuation.injEq, Terminal.punctuation.injEq]
          exact hmark
        · have hafter : Site.outside.later.Clears (levelAfter depth [l]) part := by
            rwa [hlevel]
          exact hafter.append
  · rw [bind_of_ok _ (eat_of_ne hpeek)]
    exact hy depth c

end Steps

section Loops

variable {α : Type}
variable {site : Site}
variable {step : Reader α}

/-- A loop stays where it is if each of its rounds does. -/
theorem guarded_whileMore
    {more : Cursor → Bool}
    (hsite : site.later = site)
    (hstep : ∀ depth c, more c = true → Stays site depth depth c (step c)) :
    Guarded site (whileMore more step) := by
  have hrounds : ∀ rounds, Guarded site (repeatWhile more step rounds) := by
    intro rounds
    induction rounds with
    | zero =>
        exact guarded_pure []
    | succ rounds ih =>
        intro depth c
        rw [repeatWhile, get_bind]
        by_cases hmore : more c = true
        · rw [if_pos hmore]
          refine (hstep depth c hmore).bind fun a c' => ?_
          rw [hsite]
          refine Guarded.bind ih (fun as => ?_) depth c'
          exact guarded_pure (a :: as)
        · rw [if_neg hmore]
          exact guarded_pure [] depth c
  exact Guarded.get_bind fun c => hrounds _

theorem guarded_further
    {mark : Punctuation}
    (hplain : Plain (.punctuation mark) = true)
    (hstep : Guarded .outside step) :
    Guarded .outside (further mark step) := by
  refine guarded_whileMore rfl fun depth c hmore => ?_
  rw [modify_bind]
  exact stays_bump (Cursor.peek?_of_isAt hmore) hplain (hstep depth)

/-- Outside of braces, a list stays where it is; its items may use up the documentation in front of
them if the list may. -/
theorem guarded_commaList
    {close : Punctuation}
    (hsite : site.later = .outside)
    (hstep : Guarded site step) :
    Guarded site (commaList close step) := by
  have hrounds : ∀ rounds, Guarded site (commaItems close step rounds) := by
    intro rounds
    induction rounds with
    | zero =>
        exact guarded_pure []
    | succ rounds ih =>
        intro depth c
        rw [commaItems, get_bind]
        by_cases hclose : c.isAt (.punctuation close) = true
        · rw [if_pos hclose]
          exact guarded_pure [] depth c
        · rw [if_neg hclose]
          refine Stays.bind (hstep depth c) fun a c' => ?_
          rw [hsite]
          refine guarded_eat_listed (.inr rfl) (Guarded.bind (ih.listed hsite) fun as => ?_) ?_
            depth c'
          · exact guarded_pure (a :: as)
          · exact guarded_pure [a]
  exact Guarded.get_bind fun c => hrounds _

/-- Items in braces may take all terminals at their own level. -/
theorem guarded_braced
    (hstep : Guarded .inside step) :
    Guarded .outside (braced step) := by
  have hloop : Guarded .inside (upTo .closeBrace step) :=
    guarded_whileMore rfl fun depth c _ => hstep depth c
  intro depth c
  refine Stays.bind (stays_openBrace depth) fun _ c₁ => ?_
  refine Stays.bind (hloop depth c₁).shift fun items c₂ => ?_
  refine Stays.bind (stays_closeBrace depth) fun _ c₃ => ?_
  exact guarded_pure items depth c₃

end Loops

section Words

variable {site : Site}

theorem readIdent_stays
    (expected : String) :
    Guarded site (readIdent expected) := by
  intro depth c
  rw [readIdent, get_bind]
  generalize hpeek : c.peek? = front
  split
  · exact stays_advance hpeek rfl depth
  · exact stays_failExpecting expected depth depth

theorem readTypeIdent_stays
    (expected : String) :
    Guarded site (readTypeIdent expected) := by
  intro depth c
  rw [readTypeIdent, get_bind]
  generalize hpeek : c.peek? = front
  split
  · exact stays_advance hpeek rfl depth
  · exact stays_failExpecting expected depth depth

theorem readString_stays
    (expected : String) :
    Guarded site (readString expected) := by
  intro depth c
  rw [readString, get_bind]
  generalize hpeek : c.peek? = front
  split
  · exact stays_advance hpeek rfl depth
  · exact stays_failExpecting expected depth depth

theorem readLiteral_stays :
    Guarded site readLiteral := by
  intro depth c
  rw [readLiteral, get_bind]
  generalize hpeek : c.peek? = front
  split
  · exact stays_advance hpeek rfl depth
  · rename_i text
    cases Number.parse text with
    | ok number =>
        exact stays_advance hpeek rfl depth
    | error e =>
        exact stays_error rfl depth depth
  · exact stays_advance hpeek rfl depth
  · exact stays_advance hpeek rfl depth
  · exact stays_advance hpeek rfl depth
  · exact stays_failExpecting _ depth depth

end Words

section Types

theorem readQualifier_stays :
    Guarded .outside readQualifier := by
  intro depth c
  rw [readQualifier, get_bind]
  generalize hpeek : c.peek? = front
  split
  · rename_i name
    rw [modify_bind]
    refine stays_bump hpeek rfl ?_
    refine Guarded.bind (guarded_expectMark rfl) (fun _ => ?_) depth
    exact guarded_pure (some name)
  · exact guarded_pure none depth c

theorem readTypeName_stays :
    Guarded .outside readTypeName := by
  refine Guarded.get_bind fun c => ?_
  refine Guarded.bind readQualifier_stays fun qualifier => ?_
  refine Guarded.bind (readTypeIdent_stays _) fun first => ?_
  refine Guarded.bind (guarded_further rfl (readTypeIdent_stays _)) fun more => ?_
  exact Guarded.get_bind fun c' => guarded_pure _

/-- Types stay where they are, those with braces of their own included. -/
theorem readTypeExpr_stays
    (levels : Nat) :
    Guarded .outside (readTypeExpr levels) := by
  induction levels with
  | zero =>
      intro depth c
      exact stays_error rfl depth depth
  | succ levels ih =>
      intro depth c
      rw [readTypeExpr, get_bind]
      generalize hpeek : c.peek? = front
      split
      · rw [modify_bind]
        exact stays_bump hpeek rfl (guarded_pure _ depth)
      · rw [modify_bind]
        refine stays_bump hpeek rfl ?_
        refine Guarded.bind ih (fun item => ?_) depth
        refine Guarded.bind (guarded_expectMark rfl) fun _ => ?_
        exact guarded_pure _
      · rw [modify_bind]
        -- a map runs one brace deeper, so its closing brace is never taken at depth zero
        obtain ⟨l, hl, hpass⟩ := Cursor.exists_passes_of_peek? hpeek
        have hcalm : Calm false depth [l] := by
          refine ⟨fun _ => ?_, trivial⟩
          rw [hl]
          exact ⟨by simp, fun _ => rfl⟩
        have hlevel : levelAfter depth [l] = depth + 1 := by
          rw [levelAfter_cons, hl]
          rfl
        refine Stays.append hpass hcalm hlevel ?_
        refine Stays.bind (ih (depth + 1) _) fun key c₁ => ?_
        refine Stays.bind (guarded_expectMark rfl (depth + 1) c₁) fun _ c₂ => ?_
        refine Stays.bind (ih (depth + 1) c₂) fun value c₃ => ?_
        refine Stays.bind (stays_closeBrace depth) fun _ c₄ => ?_
        exact guarded_pure _ depth c₄
      · rw [modify_bind]
        refine stays_bump hpeek rfl ?_
        refine Guarded.bind ih (fun first => ?_) depth
        refine Guarded.bind (guarded_further rfl ih) fun more => ?_
        refine Guarded.bind (guarded_expect _ rfl) fun _ => ?_
        exact guarded_pure _
      · exact Guarded.bind readTypeName_stays (fun name => guarded_pure _) depth c
      · exact Guarded.bind readTypeName_stays (fun name => guarded_pure _) depth c
      · exact stays_failExpecting _ depth depth

theorem readType_stays
    (levels : Nat) :
    Guarded .outside (readType levels) := by
  refine Guarded.get_bind fun c => ?_
  refine Guarded.bind (readTypeExpr_stays levels) fun type => ?_
  exact Guarded.get_bind fun c' => guarded_pure _

theorem readChannel_stays
    (levels : Nat) :
    Guarded .outside (readChannel levels) := by
  refine Guarded.bind (guarded_eat rfl) fun streaming => ?_
  refine Guarded.bind (readType_stays levels) fun type => ?_
  exact guarded_pure _

end Types

section Documentation

variable {α β : Type}

/-- A reader that takes the lexeme in front, whatever its documentation, or fails at once. -/
def TakesFront
    (r : Reader α) : Prop :=
  ∀ c, r c.clearDoc = r c ∨ ∃ e, r c.clearDoc = .error e c.clearDoc ∧ e.span = c.span

theorem TakesFront.bind
    {r : Reader α}
    (h : TakesFront r)
    (f : α → Reader β) :
    TakesFront (r >>= f) := by
  intro c
  rcases h c with heq | ⟨e, herror, hspan⟩
  · exact .inl (bind_congr_at f heq)
  · exact .inr ⟨e, bind_of_error f herror, hspan⟩

theorem readIdent_takesFront
    (expected : String) :
    TakesFront (readIdent expected) := by
  intro c
  rw [readIdent, get_bind, get_bind, Cursor.peek?_clearDoc]
  generalize c.peek? = front
  split
  · exact .inl (bind_congr_at _ advance_clearDoc)
  · refine .inr ⟨_, rfl, ?_⟩
    rw [span_unexpected, Cursor.span_clearDoc]

theorem readTypeIdent_takesFront
    (expected : String) :
    TakesFront (readTypeIdent expected) := by
  intro c
  rw [readTypeIdent, get_bind, get_bind, Cursor.peek?_clearDoc]
  generalize c.peek? = front
  split
  · exact .inl (bind_congr_at _ advance_clearDoc)
  · refine .inr ⟨_, rfl, ?_⟩
    rw [span_unexpected, Cursor.span_clearDoc]

theorem readDeclWord_takesFront :
    TakesFront readDeclWord := by
  intro c
  rw [readDeclWord, get_bind, get_bind, Cursor.peek?_clearDoc, Cursor.span_clearDoc]
  generalize c.peek? = front
  split
  · rename_i keyword
    cases DeclWord.ofKeyword? keyword with
    | some kind =>
        left
        dsimp only
        rw [modify_bind, modify_bind, Cursor.bump_clearDoc]
    | none =>
        refine .inr ⟨_, rfl, ?_⟩
        rw [span_unexpected, Cursor.span_clearDoc]
  · exact .inr ⟨_, rfl, rfl⟩
  · refine .inr ⟨_, rfl, ?_⟩
    rw [span_unexpected, Cursor.span_clearDoc]

/-- The attributes and the keyword of a declaration. -/
theorem head_takesFront
    (f : List Attribute → DeclWord → Reader α) :
    TakesFront (readAttributes >>= fun attributes => readDeclWord >>= f attributes) := by
  intro c
  by_cases hfront : c.peek? = some (.punctuation .hash)
  · exact .inl (bind_congr_at _ (readAttributes_clearDoc hfront))
  · rw [bind_of_ok _ (readAttributes_of_ne hfront),
      bind_of_ok _ (readAttributes_of_ne (by rwa [Cursor.peek?_clearDoc]))]
    exact readDeclWord_takesFront.bind (f []) c

/-- A reader of documentation may fail in front of the lexeme whose documentation it took. -/
theorem stays_takeDoc
    {site : Site}
    {depth : Nat}
    {c : Cursor}
    {f : List String → Reader α}
    (hsite : site ≠ .outside)
    (hfront : f c.doc c.clearDoc = f c.doc c ∨
      ∃ e, f c.doc c.clearDoc = .error e c.clearDoc ∧ e.span = c.span)
    (hrun : Stays site.later depth depth c (f c.doc c)) :
    Stays site depth depth c ((takeDoc >>= f) c) := by
  rw [takeDoc_bind]
  rcases hfront with heq | ⟨e, herror, hspan⟩
  · rw [heq]
    exact Stays.append (p := []) rfl trivial rfl hrun
  · rw [herror]
    refine ⟨[], c, rfl, trivial, hspan, .inr ⟨rfl, ?_⟩⟩
    cases site with
    | inside =>
        trivial
    | listed =>
        exact .inl rfl
    | outside =>
        exact absurd rfl hsite

theorem guarded_takeDoc
    {r : Reader α}
    {f : List String → α → Reader β}
    (hfront : TakesFront r)
    (hrun : ∀ doc, Guarded .outside (r >>= f doc)) :
    Guarded .listed (takeDoc >>= fun doc => r >>= f doc) :=
  fun depth c => stays_takeDoc (by simp) (hfront.bind _ c) (hrun _ depth c)

end Documentation

section Parts

theorem readRange_stays :
    Guarded .outside readRange := by
  intro depth c
  rw [readRange, get_bind]
  generalize hpeek : c.peek? = front
  split
  · exact Guarded.bind (readString_stays _) (fun text => guarded_pure _) depth c
  · exact guarded_pure none depth c

/-- What follows the keyword of an import. -/
theorem readImport_stays
    {c : Cursor}
    (hpeek : c.peek? = some (.keyword .useWord)) :
    ∃ use, use.symbol = .keyword .useWord ∧ c.Passes [use] c.bump ∧
      ∀ depth, Stays .outside depth depth c.bump (readImport c) := by
  obtain ⟨use, huse, hpass⟩ := Cursor.exists_passes_of_peek? hpeek
  refine ⟨use, huse, hpass, fun depth => ?_⟩
  rw [readImport, bind_of_ok _ advance_apply]
  refine Guarded.bind (readIdent_stays _) (fun first => ?_) depth c.bump
  refine Guarded.bind (guarded_further rfl (readIdent_stays _)) fun more => ?_
  refine Guarded.bind readRange_stays fun range => ?_
  refine Guarded.bind (guarded_after rfl (readIdent_stays _)) fun alias? => ?_
  refine Guarded.bind (guarded_expectMark rfl) fun stop => ?_
  exact guarded_pure _

theorem readArgument_stays :
    Guarded .outside readArgument := by
  refine Guarded.bind (readIdent_stays _) fun name => ?_
  refine Guarded.bind (guarded_after rfl readLiteral_stays) fun value => ?_
  exact guarded_pure _

theorem readArguments_stays :
    Guarded .outside readArguments := by
  refine Guarded.bind (guarded_eat rfl) fun taken => ?_
  cases taken with
  | false =>
      exact guarded_pure []
  | true =>
      refine Guarded.bind (guarded_commaList rfl readArgument_stays) fun args => ?_
      refine Guarded.bind (guarded_expectMark rfl) fun _ => ?_
      exact guarded_pure args

/-- What follows the hash of an attribute. -/
theorem readAttribute_stays
    {c : Cursor}
    (hpeek : c.peek? = some (.punctuation .hash)) :
    ∃ hash, hash.symbol = .punctuation .hash ∧ c.Passes [hash] c.bump ∧
      ∀ depth, Stays .outside depth depth c.bump (readAttribute c) := by
  obtain ⟨hash, hhash, hpass⟩ := Cursor.exists_passes_of_peek? hpeek
  refine ⟨hash, hhash, hpass, fun depth => ?_⟩
  rw [readAttribute, bind_of_ok _ advance_apply]
  refine Guarded.bind (guarded_expectMark rfl) (fun _ => ?_) depth c.bump
  refine Guarded.bind (readIdent_stays _) fun name => ?_
  refine Guarded.bind readArguments_stays fun args => ?_
  refine Guarded.bind (guarded_expectMark rfl) fun stop => ?_
  exact guarded_pure _

theorem readFieldParts_stays
    (levels : Nat) :
    Guarded .listed (readFieldParts levels) := by
  refine guarded_takeDoc (readIdent_takesFront _) fun doc => ?_
  refine Guarded.bind (readIdent_stays _) fun name => ?_
  refine Guarded.bind (guarded_eat rfl) fun optional => ?_
  refine Guarded.bind (guarded_expectMark rfl) fun _ => ?_
  refine Guarded.bind (readType_stays levels) fun type => ?_
  refine Guarded.bind (guarded_after rfl (readString_stays _)) fun alias? => ?_
  exact Guarded.get_bind fun c => guarded_pure _

theorem readField_stays
    (levels : Nat) :
    Guarded .listed (readField levels) := by
  refine Guarded.bind (readFieldParts_stays levels) fun field => ?_
  refine Guarded.bind (guarded_expectMark rfl) fun stop => ?_
  exact guarded_pure _

theorem readEnumMember_stays :
    Guarded .listed readEnumMember := by
  refine guarded_takeDoc (readTypeIdent_takesFront _) fun doc => ?_
  refine Guarded.bind (readTypeIdent_stays _) fun name => ?_
  refine Guarded.bind (guarded_after rfl readLiteral_stays) fun value => ?_
  refine Guarded.bind (guarded_expectMark rfl) fun stop => ?_
  exact guarded_pure _

theorem readEndpointArgument_stays
    (levels : Nat) :
    Guarded .outside (readEndpointArgument levels) := by
  refine Guarded.bind (readIdent_stays _) fun name => ?_
  refine Guarded.bind (guarded_expectMark rfl) fun _ => ?_
  refine Guarded.bind (readChannel_stays levels) fun channel => ?_
  exact guarded_pure _

theorem readEndpoint_stays
    (levels : Nat) :
    Guarded .listed (readEndpoint levels) := by
  refine guarded_takeDoc (readIdent_takesFront _) fun doc => ?_
  refine Guarded.bind (readIdent_stays _) fun name => ?_
  refine Guarded.bind (guarded_expectMark rfl) fun _ => ?_
  refine Guarded.bind (guarded_commaList rfl (readEndpointArgument_stays levels)) fun args => ?_
  refine Guarded.bind (guarded_expect _ rfl) fun _ => ?_
  refine Guarded.bind (guarded_after rfl (readChannel_stays levels)) fun response => ?_
  refine Guarded.bind (guarded_after rfl (readString_stays _)) fun alias? => ?_
  refine Guarded.bind (guarded_expectMark rfl) fun stop => ?_
  exact guarded_pure _

end Parts

section Bodies

variable {decl : Reader Decl}
variable (hdecl : Guarded .inside decl)
variable (levels : Nat)
include hdecl

theorem readMember_stays :
    Guarded .inside (readMember decl levels) := by
  intro depth c
  rw [readMember, get_bind]
  generalize hpeek : c.peek? = front
  split
  · exact Guarded.bind (readField_stays levels).inside (fun field => guarded_pure _) depth c
  · split
    · exact Guarded.bind hdecl (fun d => guarded_pure _) depth c
    · exact stays_failExpecting _ depth depth
  · exact stays_failExpecting _ depth depth

theorem readMembers_stays :
    Guarded .outside (readMembers decl levels) :=
  guarded_braced (readMember_stays hdecl levels)

theorem readTupleMembers_stays :
    Guarded .outside (readTupleMembers decl levels) := by
  refine guarded_eat_listed (.inl rfl) ?_ (readMembers_stays hdecl levels)
  refine Guarded.bind (guarded_commaList rfl (readFieldParts_stays levels)) fun fields => ?_
  refine Guarded.bind (guarded_expect _ rfl) fun _ => ?_
  refine Guarded.bind (guarded_eat rfl) fun _ => ?_
  exact guarded_pure _

theorem readSubTypeMembers_stays :
    Guarded .outside (readSubTypeMembers decl levels) := by
  intro depth c
  rw [readSubTypeMembers, get_bind]
  split
  · exact readMembers_stays hdecl levels depth c
  · exact Guarded.bind (guarded_expect _ rfl) (fun _ => guarded_pure _) depth c

theorem readSubType_stays :
    Guarded .listed (readSubType decl levels) := by
  refine guarded_takeDoc (readTypeIdent_takesFront _) fun doc => ?_
  refine Guarded.bind (readTypeIdent_stays _) fun name => ?_
  refine Guarded.bind (guarded_after rfl readLiteral_stays) fun alias? => ?_
  refine Guarded.bind (readSubTypeMembers_stays hdecl levels) fun members => ?_
  exact Guarded.get_bind fun c => guarded_pure _

theorem readInterfaceItem_stays :
    Guarded .inside (readInterfaceItem decl levels) := by
  intro depth c
  rw [readInterfaceItem, get_bind]
  generalize hpeek : c.peek? = front
  split
  · exact Guarded.bind (readSubType_stays hdecl levels).inside (fun s => guarded_pure _) depth c
  · exact Guarded.bind (readMember_stays hdecl levels) (fun m => guarded_pure _) depth c

theorem readServiceItem_stays :
    Guarded .inside (readServiceItem decl levels) := by
  intro depth c
  rw [readServiceItem, get_bind]
  generalize hpeek : c.peek? = front
  split
  · exact Guarded.bind (readEndpoint_stays levels).inside (fun e => guarded_pure _) depth c
  · split
    · exact Guarded.bind hdecl (fun d => guarded_pure _) depth c
    · exact stays_failExpecting _ depth depth
  · exact stays_failExpecting _ depth depth

theorem readBody_stays
    (word : DeclWord) :
    Guarded .outside (readBody decl levels word) := by
  cases word with
  | type =>
      exact Guarded.bind (readMembers_stays hdecl levels) fun members => guarded_pure _
  | tuple =>
      exact Guarded.bind (readTupleMembers_stays hdecl levels) fun members => guarded_pure _
  | interface =>
      exact Guarded.bind (guarded_braced (readInterfaceItem_stays hdecl levels)) fun items =>
        guarded_pure _
  | enum =>
      refine Guarded.bind (guarded_after rfl (readType_stays levels)) fun type => ?_
      exact Guarded.bind (guarded_braced readEnumMember_stays.inside) fun members =>
        guarded_pure _
  | service =>
      exact Guarded.bind (guarded_braced (readServiceItem_stays hdecl levels)) fun items =>
        guarded_pure _

end Bodies

section Declarations

theorem readAttributes_stays :
    Guarded .inside readAttributes := by
  refine guarded_whileMore rfl fun depth c hmore => ?_
  obtain ⟨hash, hhash, hpass, hrun⟩ := readAttribute_stays (Cursor.peek?_of_isAt hmore)
  refine Stays.append hpass ?_ ?_ ((hrun depth).of_outside _)
  · exact ⟨fun _ => ⟨by simp [hhash], fun hinner => (by cases hinner)⟩, trivial⟩
  · rw [levelAfter_cons, hhash]
    rfl

/-- The keyword of a declaration is no brace. -/
theorem levelAfter_word
    {l : Lexeme}
    {keyword : Keyword}
    (hl : l.symbol = .keyword keyword)
    (depth : Nat) :
    levelAfter depth [l] = depth := by
  rw [levelAfter_cons, hl]
  rfl

theorem readDeclWord_stays :
    Guarded .inside readDeclWord := by
  intro depth c
  rw [readDeclWord, get_bind]
  generalize hpeek : c.peek? = front
  split
  · rename_i keyword
    cases DeclWord.ofKeyword? keyword with
    | some kind =>
        obtain ⟨l, hl, hpass⟩ := Cursor.exists_passes_of_peek? hpeek
        refine ⟨[l], hpass, ?_, levelAfter_word hl depth⟩
        exact ⟨fun _ => ⟨by simp [hl], fun hinner => (by cases hinner)⟩, trivial⟩
    | none =>
        exact stays_failExpecting _ depth depth
  · exact stays_error rfl depth depth
  · exact stays_failExpecting _ depth depth

/-- What follows the keyword of a declaration. -/
def afterWord
    (decl : Reader Decl)
    (levels : Nat)
    (doc : List String)
    (start : Span)
    (attributes : List Attribute)
    (word : DeclWord) :
    Reader Decl := do
  let name ← readTypeIdent "declaration name"
  let body ← readBody decl levels word
  return { doc, attributes, name, body, span := start.cover (← get).last }

theorem afterWord_stays
    {decl : Reader Decl}
    (hdecl : Guarded .inside decl)
    (levels : Nat)
    (doc : List String)
    (start : Span)
    (attributes : List Attribute)
    (word : DeclWord) :
    Guarded .outside (afterWord decl levels doc start attributes word) := by
  refine Guarded.bind (readTypeIdent_stays _) fun name => ?_
  refine Guarded.bind (readBody_stays hdecl levels word) fun body => ?_
  exact Guarded.get_bind fun c => guarded_pure _

/-- A declaration takes the documentation in front and then its head. -/
theorem readDeclWith_apply
    (decl : Reader Decl)
    (levels : Nat)
    (c : Cursor) :
    readDeclWith decl levels c =
      (readAttributes >>= fun attributes =>
        readDeclWord >>= afterWord decl levels c.doc c.span attributes) c.clearDoc := by
  rw [readDeclWith, takeDoc_bind, get_bind, Cursor.span_clearDoc]
  rfl

/-- The declarations of a file may nest others. -/
theorem readDecl_maxNesting :
    ∃ levels, readDecl maxNesting = readDeclWith (readDecl levels) levels :=
  ⟨63, rfl⟩

/-- Nested declarations stay between the braces around them. -/
theorem readDecl_stays
    (levels : Nat) :
    Guarded .inside (readDecl levels) := by
  induction levels with
  | zero =>
      intro depth c
      exact stays_error rfl depth depth
  | succ levels ih =>
      intro depth c
      rw [readDecl, readDeclWith_apply]
      rcases head_takesFront (afterWord (readDecl levels) levels c.doc c.span) c with
        heq | ⟨e, herror, hspan⟩
      · rw [heq]
        refine Guarded.bind readAttributes_stays (fun attributes => ?_) depth c
        refine Guarded.bind readDeclWord_stays fun word => ?_
        exact (afterWord_stays ih levels _ _ attributes word).of_outside _
      · rw [herror]
        exact ⟨[], c, rfl, trivial, hspan, .inr ⟨rfl, trivial⟩⟩

end Declarations

end Tree
end Schemata
