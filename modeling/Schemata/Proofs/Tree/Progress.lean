import Schemata.Proofs.Tree.Agreement
import Schemata.Proofs.Tree.Reading

/-!
# The reading of a file goes on and ends

The loop over a file reads an item in each round, or finds an error and skips what is
behind it.  An item may fail before it takes a lexeme, and recovery may stop before it
skips one, but not both in one round: recovery stops where an item begins, and what
begins there takes a lexeme before it fails.  For this, every round has to begin outside
of all braces.  It does, since an item that is read has closed what it opened, and
recovery goes on to the end unless everything is closed.

So each round leaves fewer lexemes, and the loop ends after at most as many rounds as
there are lexemes.

**Results.** `roundOf_progress`, `round_eq`, `items_ends`, `items_progress`.
-/

namespace Schemata
namespace Tree

section Recovery

/-- What recovery does with the lexeme in front. -/
theorem Cursor.recovered_cons
    (l : Lexeme)
    (rest : List Lexeme)
    (depth : Nat)
    (last eof : Span) :
    Cursor.recovered ⟨l :: rest, depth, last, eof⟩ =
      if depth == 0 && (beginsDecl l.symbol || l.symbol == .keyword .useWord) then
        ⟨l :: rest, depth, last, eof⟩
      else if l.symbol == .punctuation .closeBrace &&
          Cursor.depthAfter depth l.symbol == 0 then
        ⟨rest, Cursor.depthAfter depth l.symbol, l.span, eof⟩
      else Cursor.recovered ⟨rest, Cursor.depthAfter depth l.symbol, l.span, eof⟩ := by
  unfold Cursor.recovered
  rw [recover]
  dsimp only
  split_ifs
  · rfl
  · rfl
  · rfl

/-- Nothing is open, unless all lexemes are taken. -/
def Cursor.AtHead
    (c : Cursor) : Prop :=
  c.rest ≠ [] → c.depth = 0

/-- Recovery comes to the end, or to a place outside of all braces. -/
theorem Cursor.atHead_recovered
    (c : Cursor) :
    c.recovered.AtHead := by
  obtain ⟨rest, depth, last, eof⟩ := c
  induction rest generalizing depth last with
  | nil =>
      exact fun hne => absurd rfl hne
  | cons l rest ih =>
      rw [recovered_cons]
      split_ifs with hstop hclose
      · intro _
        exact (by simpa using hstop : depth = 0 ∧ _).1
      · intro _
        exact (by simpa using hclose : _ ∧ Cursor.depthAfter depth l.symbol = 0).2
      · exact ih _ _

theorem Cursor.length_recovered_le
    (c : Cursor) :
    c.recovered.rest.length ≤ c.rest.length :=
  (recover_suffix c.depth c.last c.rest).length_le

/-- Recovery does not stay at a terminal that begins no item. -/
theorem Cursor.length_recovered_lt
    {c : Cursor}
    {symbol : Terminal}
    (hpeek : c.peek? = some symbol)
    (hsymbol : startsItem symbol = false) :
    c.recovered.rest.length < c.rest.length := by
  obtain ⟨rest, depth, last, eof⟩ := c
  cases rest with
  | nil =>
      cases hpeek
  | cons l rest =>
      obtain rfl : l.symbol = symbol := by
        simpa [Cursor.peek?] using hpeek
      have hstop : ¬(depth == 0 &&
          (beginsDecl l.symbol || l.symbol == .keyword .useWord)) = true := by
        rw [Bool.and_eq_true, not_and]
        exact fun _ => Bool.eq_false_iff.mp hsymbol
      rw [recovered_cons, if_neg hstop]
      split_ifs
      · exact Nat.lt_succ_self _
      · exact Nat.lt_succ_of_le (Cursor.length_recovered_le _)

end Recovery

section Rounds

variable {c : Cursor}

/-- One round of the reading of a file: what is found, and where the next round begins. -/
def roundOf
    (c : Cursor) :
    Except ParseError Item × Cursor :=
  match readItem c with
  | .ok item next => (.ok item, next)
  | .error e next => (.error e, next.recovered)

/-- A round that begins outside of all braces takes a lexeme, and the next one begins there
again. -/
theorem roundOf_progress
    (hhead : c.AtHead)
    (hne : c.rest ≠ []) :
    (roundOf c).2.AtHead ∧ Left (roundOf c).2.rest c.rest ∧
      (roundOf c).2.rest.length < c.rest.length := by
  unfold roundOf
  cases hread : readItem c with
  | ok item next =>
      obtain ⟨part, hpart, hpass, -, hlevel⟩ := readItem_ok hread
      refine ⟨fun _ => ?_, .of_suffix ⟨part, hpass.rest.symm⟩, ?_⟩
      · rw [hpass.depth, hhead hne, hlevel]
      · rw [hpass.rest, List.length_append]
        exact Nat.lt_add_of_pos_left (List.length_pos_of_ne_nil hpart)
  | error e next =>
      refine ⟨next.atHead_recovered, (readItem_error_left hread).2.1, ?_⟩
      obtain ⟨part, stop, hpass, -, -, hstarts, hnext⟩ := readItem_error hread
      have hlength : next.rest.length = stop.rest.length := by
        rcases hnext with rfl | ⟨rfl, -⟩
        · rfl
        · exact stop.length_rest_clearDoc
      have htaken : c.rest.length = part.length + stop.rest.length := by
        rw [hpass.rest, List.length_append]
      by_cases hpart : part = []
      · -- nothing is taken, so no item begins here, and recovery skips a lexeme
        subst hpart
        obtain rfl : stop = c := hpass
        obtain ⟨l, rest, hrest⟩ := List.exists_cons_of_ne_nil hne
        have hsymbol : startsItem l.symbol = false :=
          Bool.eq_false_iff.mpr fun hl => hstarts rfl ⟨l, rest, hrest, hl⟩
        have hpeek : next.peek? = some l.symbol := by
          rcases hnext with rfl | ⟨rfl, -⟩
          · rw [Cursor.peek?, hrest, List.head?_cons, Option.map_some]
          · rw [Cursor.peek?_clearDoc, Cursor.peek?, hrest, List.head?_cons, Option.map_some]
        exact hlength ▸ Cursor.length_recovered_lt hpeek hsymbol
      · have := List.length_pos_of_ne_nil hpart
        have := next.length_recovered_le
        dsimp only
        omega

/-- A round as a reader, which never fails. -/
def readRound : Reader (Except ParseError Item) :=
  fun c => .ok (roundOf c).1 (roundOf c).2

theorem readItems_succ
    (rounds : Nat)
    (hne : c.rest ≠ []) :
    readItems (rounds + 1) c = (roundOf c).1 :: readItems rounds (roundOf c).2 := by
  rw [readItems, if_neg (by simpa using hne), roundOf]
  cases readItem c with
  | ok item next => rfl
  | error e next => rfl

theorem isSome_peek?_iff
    (c : Cursor) :
    c.peek?.isSome = true ↔ c.rest ≠ [] := by
  rw [Cursor.peek?, Option.isSome_map, List.isSome_head?]

/-- Rounds are repeated to the end, and find the items and the errors. -/
theorem repeatWhile_readRound
    {rounds : Nat}
    (hhead : c.AtHead)
    (hrounds : c.rest.length < rounds) :
    ∃ stop, repeatWhile (·.peek?.isSome) readRound rounds c = .ok (readItems rounds c) stop ∧
      stop.rest = [] ∧ (readItems rounds c).length ≤ c.rest.length := by
  induction rounds generalizing c with
  | zero =>
      exact absurd hrounds (Nat.not_lt_zero _)
  | succ rounds ih =>
      rw [repeatWhile, get_bind]
      by_cases hne : c.rest = []
      · rw [if_neg (by simpa [isSome_peek?_iff] using hne), readItems,
          if_pos (by simpa using hne)]
        exact ⟨c, rfl, hne, Nat.zero_le _⟩
      · obtain ⟨hnext, -, htaken⟩ := roundOf_progress hhead hne
        obtain ⟨stop, hrest, hstop, hlength⟩ := ih hnext (by omega)
        rw [if_pos ((isSome_peek?_iff c).mpr hne), readItems_succ rounds hne]
        refine ⟨stop, ?_, hstop, ?_⟩
        · rw [bind_of_ok _ (show readRound c = .ok _ _ from rfl), bind_of_ok _ hrest]
          rfl
        · rw [List.length_cons]
          exact Nat.lt_of_le_of_lt hlength htaken

end Rounds

namespace Counter

/-- What is skipped of lexemes. -/
theorem skipOver_cons
    (others : Counted Unit)
    (l : Lexeme)
    (rest : List Lexeme)
    (depth : Nat)
    (last eof : Span)
    (n : Nat) :
    skipOver others ⟨⟨l :: rest, depth, last, eof⟩, n⟩ =
      if depth == 0 && (beginsDecl l.symbol || l.symbol == .keyword .useWord) then
        some (.ok (), ⟨⟨l :: rest, depth, last, eof⟩, n⟩)
      else if l.symbol == .punctuation .closeBrace &&
          Cursor.depthAfter depth l.symbol == 0 then
        some (.ok (), ⟨⟨rest, Cursor.depthAfter depth l.symbol, l.span, eof⟩, n⟩)
      else others ⟨⟨rest, Cursor.depthAfter depth l.symbol, l.span, eof⟩, n⟩ := by
  change (if depth == 0 && (beginsDecl l.symbol || l.symbol == .keyword .useWord) then
      pure ()
    else do
      modify Cursor.bump
      if l.symbol == .punctuation .closeBrace && (← get).depth == 0 then pure ()
      else others : Counted Unit) _ = _
  by_cases hstop : (depth == 0 &&
      (beginsDecl l.symbol || l.symbol == .keyword .useWord)) = true
  · rw [if_pos hstop, if_pos hstop]
    rfl
  · rw [if_neg hstop, if_neg hstop]
    change (if l.symbol == .punctuation .closeBrace &&
        Cursor.depthAfter depth l.symbol == 0 then pure () else others : Counted Unit) _ = _
    by_cases hclose : (l.symbol == .punctuation .closeBrace &&
        Cursor.depthAfter depth l.symbol == 0) = true
    · rw [if_pos hclose, if_pos hclose]
      rfl
    · rw [if_neg hclose, if_neg hclose]
      rfl

/-- Lexemes are skipped one by one. -/
theorem agrees_skip
    (n : Nat) :
    Agrees n skip (modify Cursor.recovered) := by
  suffices h : ∀ rest depth last eof k, rest.length < k →
      AgreesAt n ⟨rest, depth, last, eof⟩ (unfolded skipOver k) (modify Cursor.recovered) from
    fun c => agreesAt_recursion fun k hk => h c.rest c.depth c.last c.eof k hk
  intro rest
  induction rest with
  | nil =>
      intro depth last eof k hk
      obtain ⟨k', -, hunfolded⟩ := exists_unfolded skipOver hk
      rw [hunfolded]
      rfl
  | cons l rest ih =>
      intro depth last eof k hk
      obtain ⟨k', hk', hunfolded⟩ := exists_unfolded skipOver hk
      rw [hunfolded, AgreesAt, lift_modify, skipOver_cons, Cursor.recovered_cons]
      split_ifs
      · rfl
      · rfl
      · exact ih _ _ _ k' hk'

theorem attempt_eq
    {α : Type}
    {m : Counted α}
    {s s' : State}
    {result : Except ParseError α}
    (h : m s = some (result, s')) :
    attempt m s = some (.ok result, s') := by
  change (m s).bind _ = _
  rw [h]
  rfl

/-- A round finds what one round of bounded reading finds. -/
theorem round_eq
    (c : Cursor) :
    round ⟨c, 0⟩ = some (.ok (roundOf c).1, ⟨(roundOf c).2, 0⟩) := by
  have hitem : item ⟨c, 0⟩ = lift readItem ⟨c, 0⟩ := agrees_item c
  change (attempt item ⟨c, 0⟩).bind _ = _
  cases hread : readItem c with
  | ok item next =>
      rw [attempt_eq (hitem.trans (lift_of_ok hread)), roundOf, hread]
      rfl
  | error e next =>
      rw [attempt_eq (hitem.trans (lift_of_error hread)), roundOf, hread]
      change (skip ⟨next, 0⟩).bind _ = _
      rw [show skip ⟨next, 0⟩ = _ from agrees_skip 0 next]
      rfl

theorem agrees_round :
    Agrees 0 round readRound :=
  round_eq

theorem agreesAt_items
    {c : Cursor}
    (hhead : c.AtHead) :
    AgreesAt 0 c items (whileMore (·.peek?.isSome) readRound) := by
  refine agreesAt_loop agrees_round (fun c found next hc hmore hround => ?_) hhead
  obtain ⟨rfl, rfl⟩ : (roundOf c).1 = found ∧ (roundOf c).2 = next := by
    simpa [readRound] using hround
  obtain ⟨hnext, -, htaken⟩ := roundOf_progress hc ((isSome_peek?_iff c).mp hmore)
  exact ⟨hnext, htaken⟩

/-- The state in which the reading of a file begins. -/
def start
    (file size : Nat)
    (lexemes : List Lexeme) :
    State :=
  { cursor :=
      { rest := lexemes
        depth := 0
        last := ⟨file, 0, 0⟩
        eof := ⟨file, size, size⟩ }
    nesting := 0 }

/-- A round leads from one head of the loop to the next. -/
def Follows
    (s s' : State) : Prop :=
  s.cursor.rest ≠ [] ∧ ∃ found, round s = some (.ok found, s')

/-- The number of lexemes in front of the cursor. -/
def position
    (lexemes : List Lexeme)
    (s : State) :
    Nat :=
  lexemes.length - s.cursor.rest.length

section Heads

variable {file size : Nat}
variable {lexemes : List Lexeme}
variable {s : State}

/-- At every head of the loop all levels are left, and nothing is open as long as a lexeme is
left. -/
theorem head_outside
    (h : Relation.ReflTransGen Follows (start file size lexemes) s) :
    s.nesting = 0 ∧ s.cursor.AtHead ∧ Left s.cursor.rest lexemes := by
  induction h with
  | refl =>
      exact ⟨rfl, fun _ => rfl, .of_suffix List.suffix_rfl⟩
  | @tail s next _ hfollows ih =>
      obtain ⟨hnesting, hhead, hleft⟩ := ih
      obtain ⟨hne, found, hround⟩ := hfollows
      obtain ⟨c, n⟩ := s
      obtain rfl : n = 0 := hnesting
      obtain rfl : ⟨(roundOf c).2, 0⟩ = next := by
        rw [round_eq] at hround
        exact congrArg Prod.snd (Option.some.inj hround)
      obtain ⟨hnext, hrest, -⟩ := roundOf_progress hhead hne
      exact ⟨rfl, hnext, hrest.trans hleft⟩

end Heads

/-- A file is read to its end. -/
theorem items_ends
    (file size : Nat)
    (lexemes : List Lexeme) :
    ∃ stop, items (start file size lexemes) = some (.ok (ofLexemes file size lexemes), stop) ∧
      stop.cursor.rest = [] ∧ (ofLexemes file size lexemes).length ≤ lexemes.length := by
  have hhead : (start file size lexemes).cursor.AtHead := fun _ => rfl
  obtain ⟨stop, hread, hstop, hlength⟩ :=
    repeatWhile_readRound hhead (Nat.lt_succ_self _)
  exact ⟨⟨stop, 0⟩, (agreesAt_items hhead).trans (lift_of_ok hread), hstop, hlength⟩

/-- At every head of the loop over a file at which a lexeme is left, nothing is open and no level
is entered, and the round that begins there ends further on.  So the loop ends, with what bounded
reading finds, and there are at most as many errors as lexemes. -/
theorem items_progress
    (file size : Nat)
    (lexemes : List Lexeme) :
    (∀ s, Relation.ReflTransGen Follows (start file size lexemes) s → s.cursor.rest ≠ [] →
      s.cursor.depth = 0 ∧ s.nesting = 0 ∧
        s.cursor.rest.map Lexeme.undocumented =
          (lexemes.drop (position lexemes s)).map Lexeme.undocumented ∧
        ∃ found next, round s = some (.ok found, next) ∧
          position lexemes s < position lexemes next) ∧
      (∃ stop, items (start file size lexemes) =
          some (.ok (ofLexemes file size lexemes), stop) ∧
        stop.cursor.rest = []) ∧
      ((ofLexemes file size lexemes).filterMap Item.error?).length ≤ lexemes.length := by
  obtain ⟨stop, hitems, hstop, hlength⟩ := items_ends file size lexemes
  refine ⟨fun s hs hne => ?_, ⟨stop, hitems, hstop⟩, ?_⟩
  · obtain ⟨hnesting, hhead, hleft⟩ := head_outside hs
    obtain ⟨-, -, htaken⟩ := roundOf_progress hhead hne
    have hround : round s = some (.ok (roundOf s.cursor).1, ⟨(roundOf s.cursor).2, 0⟩) := by
      rw [← round_eq s.cursor, ← hnesting]
    refine ⟨hhead hne, hnesting, ?_, _, _, hround, ?_⟩
    · rw [List.map_drop, position]
      simpa using List.suffix_iff_eq_drop.mp hleft
    · have hle : s.cursor.rest.length ≤ lexemes.length := by
        simpa using hleft.length_le
      unfold position
      dsimp only
      omega
  · exact (List.length_filterMap_le _ _).trans hlength

/-- A brace that closes nothing. -/
def Sample.strayBrace : List Lexeme :=
  [⟨.punctuation .closeBrace, ⟨0, 0, 1⟩, []⟩]

/-- No item begins at the brace, and recovery skips it. -/
theorem items_progress_strayBrace :
    ∃ found next, round (start 0 1 Sample.strayBrace) = some (.ok found, next) ∧
      position Sample.strayBrace (start 0 1 Sample.strayBrace) <
        position Sample.strayBrace next := by
  have hne : (start 0 1 Sample.strayBrace).cursor.rest ≠ [] := List.cons_ne_nil _ _
  obtain ⟨-, -, -, hround⟩ := (items_progress 0 1 Sample.strayBrace).1 _ .refl hne
  exact hround

end Counter
end Tree
end Schemata
