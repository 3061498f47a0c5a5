import Schemata.Proofs.Tree.Exact
import Schemata.Proofs.Tree.Extent

/-!
# Items that cannot be read

What a run over an item takes before it ends or fails: attributes, then perhaps
one more lexeme, which begins an item, and behind it only lexemes that begin none
outside of their braces.  So a run that starts in front of broken lexemes comes
to an item behind them only by attributes that lead up to it.

**Results.** `readItem_run`, `readItem_ok`, `readItem_error`.
-/

namespace Schemata
namespace Tree

open Grammar

/-- Lexemes that begin like an item. -/
def StartsItem
    (part : List Lexeme) : Prop :=
  ∃ l rest, part = l :: rest ∧ startsItem l.symbol = true

section Heads

/-- An attribute is its hash and calm lexemes. -/
theorem calm_hashAttribute
    {part : List Lexeme}
    {a : Attribute}
    (h : HashAttribute part a) :
    ∃ hash rest, part = hash :: rest ∧ Cursor.depthAfter 0 hash.symbol = 0 ∧
      Calm false 0 rest ∧ levelAfter 0 rest = 0 := by
  obtain ⟨c', hpass, hend⟩ := Cursor.exists_passes
    (show Cursor.rest ⟨part, 0, default, default⟩ = part ++ [] from (part.append_nil).symm)
  have hread := readAttribute_complete hpass h Cursor.avoids_nil
  obtain ⟨hash, rest, rfl, hhash⟩ := starts_hashAttribute h
  obtain ⟨_, -, -, hrun⟩ := readAttribute_stays (hhash ▸ hpass.peek?)
  have hstays := hrun 0
  rw [hread] at hstays
  obtain ⟨part, hpart, hcalm, hlevel⟩ := hstays
  obtain rfl : rest = part := by
    have heq := hpart.rest
    rwa [hend, List.append_nil] at heq
  exact ⟨hash, rest, rfl, by rw [hhash]; rfl, hcalm, hlevel⟩

theorem levelAfter_hashAttributes
    {part : List Lexeme}
    {as : List Attribute}
    (h : Many HashAttribute part as) :
    levelAfter 0 part = 0 := by
  induction h with
  | nil =>
      rfl
  | cons hfirst hrest ih =>
      obtain ⟨hash, rest, rfl, hhash, -, hlevel⟩ := calm_hashAttribute hfirst
      rw [levelAfter_append, levelAfter_cons, hhash, hlevel, ih]

/-- Behind the first of them, calm lexemes begin no item outside of braces. -/
theorem eq_nil_of_calm
    {first l : Lexeme}
    {rest p q : List Lexeme}
    (hfirst : Cursor.depthAfter 0 first.symbol = 0)
    (hcalm : Calm false 0 rest)
    (hpart : first :: rest = p ++ l :: q)
    (hlevel : levelAfter 0 p = 0)
    (hl : startsItem l.symbol = true) :
    p = [] := by
  cases p with
  | nil =>
      rfl
  | cons x p =>
      rw [List.cons_append, List.cons.injEq] at hpart
      obtain ⟨rfl, rfl⟩ := hpart
      rw [levelAfter_cons, hfirst] at hlevel
      have hnone := ((calm_append.mp hcalm).2.1 hlevel).2 rfl
      rw [hl] at hnone
      cases hnone

/-- Among attributes, items begin where attributes do. -/
theorem hashAttributes_of_append
    {part p q : List Lexeme}
    {l : Lexeme}
    {as : List Attribute}
    (h : Many HashAttribute part as)
    (hpart : part = p ++ l :: q)
    (hlevel : levelAfter 0 p = 0)
    (hl : startsItem l.symbol = true) :
    ∃ found, Many HashAttribute p found := by
  induction h generalizing p with
  | nil =>
      cases p with
      | nil =>
          cases hpart
      | cons x p =>
          cases hpart
  | cons hfirst hrest ih =>
      obtain ⟨hash, rest, rfl, hhash, hcalm, hzero⟩ := calm_hashAttribute hfirst
      -- the item begins behind the first attribute, or right after it, or within it
      rcases List.append_eq_append_iff.mp hpart with ⟨p', rfl, hq⟩ | ⟨r, hr, hq⟩
      · rw [levelAfter_append, levelAfter_cons, hhash, hzero] at hlevel
        obtain ⟨found, hfound⟩ := ih hq hlevel
        exact ⟨_, .cons hfirst hfound⟩
      · cases r with
        | nil =>
            have hone := Many.cons hfirst .nil
            rw [hr, List.append_nil, List.append_nil] at hone
            exact ⟨_, hone⟩
        | cons x r =>
            rw [List.cons_append, List.cons.injEq] at hq
            obtain ⟨rfl, -⟩ := hq
            rw [eq_nil_of_calm hhash hcalm hr hlevel hl]
            exact ⟨[], .nil⟩

/-- What a run over an item takes: attributes, and perhaps the beginning of an item. -/
inductive Headed : List Lexeme → Prop
  | attributes
      {part : List Lexeme}
      {as : List Attribute}
      (h : Many HashAttribute part as) :
      Headed part
  | item
      {p q : List Lexeme}
      {l : Lexeme}
      {as : List Attribute}
      (h : Many HashAttribute p as)
      (hl : Cursor.depthAfter 0 l.symbol = 0)
      (hrest : Calm false 0 q) :
      Headed (p ++ l :: q)

/-- A run over an item comes to another one only from attributes. -/
theorem Headed.hashAttributes
    {part p q : List Lexeme}
    {l : Lexeme}
    (h : Headed part)
    (hpart : part = p ++ l :: q)
    (hlevel : levelAfter 0 p = 0)
    (hl : startsItem l.symbol = true) :
    ∃ found, Many HashAttribute p found := by
  cases h with
  | attributes h =>
      exact hashAttributes_of_append h hpart hlevel hl
  | item h hfirst hrest =>
      rcases List.append_eq_append_iff.mp hpart with ⟨p', rfl, hq⟩ | ⟨r, rfl, hq⟩
      · rw [levelAfter_append, levelAfter_hashAttributes h] at hlevel
        rw [eq_nil_of_calm hfirst hrest hq hlevel hl, List.append_nil]
        exact ⟨_, h⟩
      · cases r with
        | nil =>
            rw [List.append_nil] at h
            exact ⟨_, h⟩
        | cons x r =>
            rw [List.cons_append, List.cons.injEq] at hq
            obtain ⟨rfl, -⟩ := hq
            exact hashAttributes_of_append h rfl hlevel hl

/-- Without attributes that lead on, a run over an item stays within what is closed before it. -/
theorem Headed.exists_append
    {part before after rest : List Lexeme}
    (h : Headed part)
    (hrest : before ++ after = part ++ rest)
    (hlevel : levelAfter 0 before = 0)
    (hafter : StartsItem after)
    (hnone : ¬∃ as, Many HashAttribute before as) :
    ∃ left, before = part ++ left ∧ rest = left ++ after := by
  rcases List.append_eq_append_iff.mp hrest with ⟨r, rfl, hr⟩ | ⟨left, hbefore, hleft⟩
  · obtain ⟨l, tail, rfl, hl⟩ := hafter
    cases r with
    | nil =>
        exact ⟨[], by simp, by simpa using hr.symm⟩
    | cons x r =>
        rw [List.cons_append, List.cons.injEq] at hr
        obtain ⟨rfl, -⟩ := hr
        exact absurd (h.hashAttributes rfl hlevel hl) hnone
  · exact ⟨left, hbefore, hleft⟩

end Heads

section Runs

variable {α β : Type}

/-- What is made of a result does not change how far the run went. -/
theorem Stays.map
    {site : Site}
    {depth depth' : Nat}
    {c c' : Cursor}
    {r : Reader α}
    (h : Stays site depth depth' c (r c'))
    (f : α → β) :
    Stays site depth depth' c ((r >>= fun a => pure (f a)) c') := by
  cases hrun : r c' with
  | ok a next =>
      rw [hrun] at h
      rw [bind_of_ok _ hrun]
      exact h
  | error e next =>
      rw [hrun] at h
      rw [bind_of_error _ hrun]
      exact h

/-- An attribute that cannot be read comes after some that can. -/
theorem readAttributes_error
    {c c' : Cursor}
    {e : ParseError}
    (h : readAttributes c = .error e c') :
    ∃ part as mid, c.Passes part mid ∧ Many HashAttribute part as ∧
      mid.peek? = some (.punctuation .hash) ∧ readAttribute mid = .error e c' := by
  have hrounds : ∀ rounds c, repeatWhile (·.isAt (.punctuation .hash)) readAttribute rounds c =
      .error e c' →
      ∃ part as mid, c.Passes part mid ∧ Many HashAttribute part as ∧
        mid.peek? = some (.punctuation .hash) ∧ readAttribute mid = .error e c' := by
    intro rounds
    induction rounds with
    | zero =>
        intro c h
        cases h
    | succ rounds ih =>
        intro c h
        rw [repeatWhile, get_bind] at h
        by_cases hmore : c.isAt (.punctuation .hash) = true
        · rw [if_pos hmore] at h
          have hfront := Cursor.peek?_of_isAt hmore
          cases hread : readAttribute c with
          | error e' next =>
              rw [bind_of_error _ hread] at h
              cases h
              exact ⟨[], [], c, rfl, .nil, hfront, hread⟩
          | ok a next =>
              rw [bind_of_ok _ hread] at h
              obtain ⟨p, hp, hattribute⟩ := readAttribute_sound hfront hread
              cases hrest : repeatWhile (·.isAt (.punctuation .hash)) readAttribute rounds next with
              | ok as last =>
                  rw [bind_of_ok _ hrest] at h
                  cases h
              | error e' last =>
                  rw [bind_of_error _ hrest] at h
                  cases h
                  obtain ⟨q, as, mid, hq, hattributes, hmid⟩ := ih next hrest
                  exact ⟨p ++ q, a :: as, mid, hp.append hq, .cons hattribute hattributes, hmid⟩
        · rw [if_neg hmore] at h
          cases h
  exact hrounds _ c h

/-- The keyword of a declaration is taken, or is not in front. -/
theorem readDeclWord_cases
    (c : Cursor) :
    (∃ word l, readDeclWord c = .ok word c.bump ∧ c.Passes [l] c.bump ∧
        Cursor.depthAfter 0 l.symbol = 0) ∨
      ∃ e, readDeclWord c = .error e c ∧ e.span = c.span ∧
        ∀ symbol, c.peek? = some symbol → beginsDecl symbol = true →
          symbol = .punctuation .hash := by
  rw [readDeclWord, get_bind]
  generalize hpeek : c.peek? = front
  split
  · rename_i keyword
    cases hword : DeclWord.ofKeyword? keyword with
    | some kind =>
        obtain ⟨l, hl, hpass⟩ := Cursor.exists_passes_of_peek? hpeek
        exact .inl ⟨kind, l, rfl, hpass, levelAfter_word hl 0⟩
    | none =>
        refine .inr ⟨_, rfl, span_unexpected _, ?_⟩
        rintro _ ⟨⟩ hbegins
        rw [beginsDecl, hword] at hbegins
        cases hbegins
  · refine .inr ⟨_, rfl, rfl, ?_⟩
    rintro _ ⟨⟩ hbegins
    cases hbegins
  · rename_i hkeyword hident
    refine .inr ⟨_, rfl, span_unexpected _, ?_⟩
    rintro symbol rfl hbegins
    cases symbol with
    | keyword word =>
        exact absurd rfl (hkeyword word)
    | punctuation mark =>
        cases mark with
        | hash =>
            rfl
        | _ =>
            cases hbegins
    | _ =>
        cases hbegins

/-- Where an attribute is in front, something is taken. -/
theorem readAttributes_passes
    {c c' : Cursor}
    {as : List Attribute}
    (hfront : c.peek? = some (.punctuation .hash))
    (h : readAttributes c = .ok as c') :
    ∃ part, part ≠ [] ∧ c.Passes part c' ∧ Many HashAttribute part as := by
  obtain ⟨part, hpass, hmany⟩ := readAttributes_sound h
  refine ⟨part, ?_, hpass, hmany⟩
  cases hmany with
  | nil =>
      rw [readAttributes, whileMore, get_bind, repeatWhile, get_bind,
        if_pos (by simpa [Cursor.isAt] using hfront)] at h
      simp only [bind_eq_ok_iff, pure_eq_ok_iff, reduceCtorEq, false_and, and_false,
        exists_false] at h
  | cons hfirst _ =>
      exact List.append_ne_nil_of_left_ne_nil (starts_hashAttribute.ne_nil hfirst) _

/-- Where an item begins, its first terminal is in front. -/
theorem StartsItem.exists_peek?
    {c : Cursor}
    (h : StartsItem c.rest) :
    ∃ symbol, c.peek? = some symbol ∧
      (beginsDecl symbol = true ∨ symbol = .keyword .useWord) := by
  obtain ⟨l, rest, hrest, hl⟩ := h
  refine ⟨l.symbol, by rw [Cursor.peek?, hrest]; rfl, ?_⟩
  simpa [startsItem] using hl

/-- A run over an item takes attributes and then another lexeme and calm ones, or it fails behind
the attributes, and then something was taken if an item begins here. -/
def HeadRun
    (c : Cursor)
    (result : EStateM.Result ParseError Cursor α) : Prop :=
  (∃ p as l mid, Many HashAttribute p as ∧ c.Passes (p ++ [l]) mid ∧
      Cursor.depthAfter 0 l.symbol = 0 ∧ Stays .outside 0 0 mid result) ∨
    ∃ p as mid e c', Many HashAttribute p as ∧ c.Passes p mid ∧ result = .error e c' ∧
      e.span = mid.span ∧ (c' = mid ∨ c' = mid.clearDoc ∧ p = []) ∧
      (p = [] → ¬StartsItem c.rest)

theorem readDeclWith_run
    {c : Cursor}
    (levels : Nat)
    (huse : c.peek? ≠ some (.keyword .useWord)) :
    HeadRun c (readDeclWith (readDecl levels) levels c) := by
  rw [readDeclWith_apply]
  by_cases hfront : c.peek? = some (.punctuation .hash)
  · rw [bind_congr_at _ (readAttributes_clearDoc hfront)]
    cases hattributes : readAttributes c with
    | error e c' =>
        obtain ⟨p, as, mid, hp, hmany, hpeek, hread⟩ := readAttributes_error hattributes
        obtain ⟨hash, hhash, hpass, hrun⟩ := readAttribute_stays hpeek
        have hstays := hrun 0
        rw [hread] at hstays
        rw [bind_of_error _ hattributes]
        exact .inl ⟨p, as, hash, mid.bump, hmany, hp.append hpass, by rw [hhash]; rfl, hstays⟩
    | ok as mid =>
        obtain ⟨p, hne, hp, hmany⟩ := readAttributes_passes hfront hattributes
        rw [bind_of_ok _ hattributes]
        rcases readDeclWord_cases mid with ⟨word, l, hread, hpass, hl⟩ | ⟨e, hread, hspan, -⟩
        · rw [bind_of_ok _ hread]
          exact .inl ⟨p, as, l, mid.bump, hmany, hp.append hpass, hl,
            afterWord_stays (readDecl_stays levels) levels _ _ as word 0 mid.bump⟩
        · rw [bind_of_error _ hread]
          exact .inr ⟨p, as, mid, e, mid, hmany, hp, rfl, hspan, .inl rfl,
            fun hnil => absurd hnil hne⟩
  · rw [bind_of_ok _ (readAttributes_of_ne (by rwa [Cursor.peek?_clearDoc]))]
    rcases readDeclWord_cases c with ⟨word, l, hread, hpass, hl⟩ | ⟨e, hread, hspan, hnone⟩
    · rw [bind_of_ok _ (readDeclWord_clearDoc.mpr hread)]
      exact .inl ⟨[], [], l, c.bump, .nil, hpass, hl,
        afterWord_stays (readDecl_stays levels) levels _ _ [] word 0 c.bump⟩
    · have hnot : ¬StartsItem c.rest := by
        intro hstarts
        obtain ⟨symbol, hpeek, hbegins | rfl⟩ := hstarts.exists_peek?
        · exact hfront (hnone symbol hpeek hbegins ▸ hpeek)
        · exact huse hpeek
      rcases readDeclWord_takesFront c with heq | ⟨e', hclear, hspan'⟩
      · rw [bind_of_error _ (heq.trans hread)]
        exact .inr ⟨[], [], c, e, c, .nil, rfl, rfl, hspan, .inl rfl, fun _ => hnot⟩
      · rw [bind_of_error _ hclear]
        exact .inr ⟨[], [], c, e', c.clearDoc, .nil, rfl, rfl, hspan', .inr ⟨rfl, rfl⟩,
          fun _ => hnot⟩

theorem readItem_run
    (c : Cursor) :
    HeadRun c (readItem c) := by
  rw [readItem, get_bind]
  by_cases huse : c.isAt (.keyword .useWord) = true
  · rw [if_pos huse]
    obtain ⟨use, hsymbol, hpass, hrun⟩ := readImport_stays (Cursor.peek?_of_isAt huse)
    exact .inl ⟨[], [], use, c.bump, .nil, hpass, levelAfter_word hsymbol 0, (hrun 0).map _⟩
  · rw [if_neg huse]
    obtain ⟨levels, hdecl⟩ := readDecl_maxNesting
    rw [hdecl]
    rcases readDeclWith_run levels (by simpa [Cursor.isAt] using huse) with
      ⟨p, as, l, mid, hmany, hpass, hl, hstays⟩ | ⟨p, as, mid, e, c', hmany, hpass, herror, hrest⟩
    · exact .inl ⟨p, as, l, mid, hmany, hpass, hl, hstays.map _⟩
    · exact .inr ⟨p, as, mid, e, c', hmany, hpass, bind_of_error _ herror, hrest⟩

/-- An item that is read leads outside of all braces. -/
theorem readItem_ok
    {c c' : Cursor}
    {item : Item}
    (h : readItem c = .ok item c') :
    ∃ part, part ≠ [] ∧ c.Passes part c' ∧ Headed part ∧ levelAfter 0 part = 0 := by
  rcases readItem_run c with
    ⟨p, as, l, mid, hmany, hpass, hl, hstays⟩ | ⟨p, as, mid, e, c', hmany, hpass, herror, hrest⟩
  · rw [h] at hstays
    obtain ⟨q, hq, hcalm, hlevel⟩ := hstays
    have hpass' := hpass.append hq
    rw [List.append_assoc, List.singleton_append] at hpass'
    refine ⟨p ++ l :: q, by simp, hpass', .item hmany hl hcalm, ?_⟩
    rw [levelAfter_append, levelAfter_hashAttributes hmany, levelAfter_cons, hl, hlevel]
  · rw [h] at herror
    cases herror

/-- An item that cannot be read gives an error at the lexeme in front, whose documentation is lost
only behind what is open, or where no item begins. -/
theorem readItem_error
    {c c' : Cursor}
    {e : ParseError}
    (h : readItem c = .error e c') :
    ∃ part stop, c.Passes part stop ∧ Headed part ∧ e.span = stop.span ∧
      (part = [] → ¬StartsItem c.rest) ∧
      (c' = stop ∨ c' = stop.clearDoc ∧ (part = [] ∨ Site.outside.Clears 0 part)) := by
  rcases readItem_run c with
    ⟨p, as, l, mid, hmany, hpass, hl, hstays⟩ |
      ⟨p, as, mid, e', next, hmany, hpass, herror, hspan, hnext, hstarts⟩
  · rw [h] at hstays
    obtain ⟨q, stop, hq, hcalm, hspan, hstop⟩ := hstays
    have hpass' := hpass.append hq
    have hlevel : levelAfter 0 (p ++ [l]) = 0 := by
      rw [levelAfter_append, levelAfter_hashAttributes hmany]
      exact hl
    refine ⟨p ++ [l] ++ q, stop, hpass', ?_, hspan, fun hnil => ?_, hstop.imp_right ?_⟩
    · rw [List.append_assoc]
      exact .item hmany hl hcalm
    · simp at hnil
    · rintro ⟨rfl, hclears⟩
      refine ⟨rfl, .inr (Site.Clears.append ?_)⟩
      rw [hlevel]
      exact hclears
  · rw [h] at herror
    cases herror
    exact ⟨p, mid, hpass, .attributes hmany, hspan, hstarts, hnext.imp_right fun hclear =>
      ⟨hclear.1, .inl hclear.2⟩⟩

end Runs

end Tree
end Schemata
