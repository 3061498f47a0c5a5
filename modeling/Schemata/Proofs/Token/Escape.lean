import Schemata.Proofs.Token.Tiling
import Schemata.Tree.Lexeme

/-!
# Where invalid escapes stand

A string literal remembers the bytes of its first invalid escape.  They are
counted while the literal is read, and they are those of the backslash and of the
characters after it that belong to the escape.  These characters are passed before
the literal can end, so the escape stands within the literal.

**Results.** `slice_append`, `exists_literal_of_mem_lex`, `invalidEscape_of_mem_lex`.
-/

namespace Schemata

section Slices

variable {start stop offset : Nat}
variable {text : List Char}

/-- Nothing is cut from what ends before the range. -/
theorem Lexeme.slice_before
    (h : offset + Text.byteLength text ≤ start) :
    slice start stop offset text = [] := by
  induction text generalizing offset with
  | nil =>
      rfl
  | cons c text ih =>
      have hsize := c.utf8Size_pos
      rw [Text.byteLength] at h
      have hfirst : ¬(decide (start ≤ offset) && decide (offset < stop)) = true := by
        simp only [Bool.and_eq_true, decide_eq_true_eq]
        omega
      rw [slice, if_neg hfirst, ih (by omega)]

/-- All is cut from what stands within the range. -/
theorem Lexeme.slice_within
    (hstart : start ≤ offset)
    (hstop : offset + Text.byteLength text ≤ stop) :
    slice start stop offset text = text := by
  induction text generalizing offset with
  | nil =>
      rfl
  | cons c text ih =>
      have hsize := c.utf8Size_pos
      rw [Text.byteLength] at hstop
      have hfirst : (decide (start ≤ offset) && decide (offset < stop)) = true := by
        simp only [Bool.and_eq_true, decide_eq_true_eq]
        omega
      rw [slice, if_pos hfirst, ih (by omega) (by omega)]

/-- Nothing is cut from what begins behind the range. -/
theorem Lexeme.slice_after
    (h : stop ≤ offset) :
    slice start stop offset text = [] := by
  induction text generalizing offset with
  | nil =>
      rfl
  | cons c text ih =>
      have hfirst : ¬(decide (start ≤ offset) && decide (offset < stop)) = true := by
        simp only [Bool.and_eq_true, decide_eq_true_eq]
        omega
      rw [slice, if_neg hfirst, ih (by omega)]

theorem Lexeme.slice_concat
    (start stop offset : Nat)
    (p q : List Char) :
    slice start stop offset (p ++ q) =
      slice start stop offset p ++ slice start stop (offset + Text.byteLength p) q := by
  induction p generalizing offset with
  | nil =>
      rfl
  | cons c p ih =>
      rw [List.cons_append, slice, slice, Text.byteLength, ih, Nat.add_assoc]
      split
      · rfl
      · rfl

/-- What stands between the bytes of a range is cut out. -/
theorem Lexeme.slice_append
    (before text after : List Char) :
    slice (Text.byteLength before) (Text.byteLength before + Text.byteLength text) 0
      (before ++ text ++ after) = text := by
  rw [slice_concat, slice_concat, slice_before (by omega), slice_within (by omega) (by omega),
    slice_after (by rw [Text.byteLength_append]; omega), List.nil_append, List.append_nil]

end Slices

namespace StringLiteral

/-- A byte range is that of some of the first `bound` characters of a text. -/
def Covers
    (whole : List Char)
    (bound start stop : Nat) : Prop :=
  ∃ before text after, whole = before ++ text ++ after ∧ start = Text.byteLength before ∧
    stop = start + Text.byteLength text ∧ (before ++ text).length ≤ bound

/-- What has been read of the text `whole`, where `rest` is left: all before it is counted, and the
first invalid escape is among it and the `skip` characters that still belong to an escape. -/
structure Progress.Follows
    (whole : List Char)
    (skip : Nat)
    (p : Progress)
    (rest : List Char) : Prop where
  taken : ∃ before, whole = before ++ rest ∧ p.bytes = Text.byteLength before ∧
    p.count = before.length
  covers : ∀ start stop, p.invalid = some (start, stop) → Covers whole (p.count + skip) start stop

section Steps

variable {whole : List Char}
variable {skip : Nat}
variable {p : Progress}
variable {c : Char}
variable {cs : List Char}

theorem Progress.Follows.pass
    (h : p.Follows whole skip (c :: cs)) :
    (p.pass c).Follows whole (skip - 1) cs := by
  obtain ⟨⟨before, hwhole, hbytes, hcount⟩, hcovers⟩ := h
  refine ⟨⟨before ++ [c], ?_, ?_, ?_⟩, fun start stop hinvalid => ?_⟩
  · rw [hwhole, List.append_assoc, List.singleton_append]
  · rw [Progress.pass, hbytes, Text.byteLength_append]
    rfl
  · rw [Progress.pass, hcount, List.length_append, List.length_singleton]
  · obtain ⟨first, text, after, hsplit, hstart, hstop, hbound⟩ := hcovers start stop hinvalid
    refine ⟨first, text, after, hsplit, hstart, hstop, ?_⟩
    change _ ≤ p.count + 1 + (skip - 1)
    omega

theorem Progress.Follows.push
    (h : p.Follows whole skip cs)
    (c : Char) :
    (p.push c).Follows whole skip cs :=
  ⟨h.taken, h.covers⟩

/-- An escape that is taken in is the backslash in front and the characters that belong to it. -/
theorem Progress.Follows.take
    (h : p.Follows whole 0 ('\\' :: cs))
    (e : Escape) :
    (p.take e cs).Follows whole (e.length + 1) ('\\' :: cs) := by
  have hlonger : ∀ start stop, p.invalid = some (start, stop) →
      Covers whole (p.count + (e.length + 1)) start stop := by
    intro start stop hinvalid
    obtain ⟨first, text, after, hsplit, hstart, hstop, hbound⟩ := h.covers start stop hinvalid
    exact ⟨first, text, after, hsplit, hstart, hstop, by omega⟩
  unfold Progress.take
  cases hdecoded : e.decoded with
  | some c =>
      exact ⟨h.taken, hlonger⟩
  | none =>
      cases hinvalid : p.invalid with
      | some range =>
          exact ⟨h.taken, hlonger⟩
      | none =>
          refine ⟨h.taken, fun start stop hrange => ?_⟩
          obtain ⟨before, hwhole, hbytes, hcount⟩ := h.taken
          obtain ⟨rfl, rfl⟩ := Prod.mk.inj (Option.some.inj hrange)
          refine ⟨before, '\\' :: cs.take e.length, cs.drop e.length, ?_, hbytes, ?_, ?_⟩
          · rw [hwhole, List.append_assoc, List.cons_append, List.take_append_drop]
          · rw [Text.byteLength, show '\\'.utf8Size = 1 from rfl, Nat.add_assoc]
          · rw [List.length_append, List.length_cons, List.length_take]
            change before.length + (min e.length cs.length + 1) ≤ p.count + (e.length + 1)
            omega

end Steps

/-- A literal that is closed has been followed up to its end. -/
theorem readBody?_follows
    {whole cs : List Char}
    {skip : Nat}
    {p q : Progress}
    (hfollows : p.Follows whole skip cs)
    (h : readBody? skip p cs = some q) :
    ∃ rest, q.Follows whole 0 rest := by
  fun_induction readBody? skip p cs with
  | case1 =>
      cases h
  | case2 skip p c cs ih =>
      exact ih hfollows.pass h
  | case3 p cs =>
      cases h
      exact ⟨cs, hfollows.pass⟩
  | case4 =>
      cases h
  | case5 p cs hquote hline ih =>
      exact ih (hfollows.take _).pass h
  | case6 p c cs hquote hline hescape ih =>
      exact ih (hfollows.push c).pass h

/-- The range of an invalid escape is that of characters of its literal. -/
theorem scan_invalidEscape
    {cs : List Char}
    {start stop n : Nat}
    (h : scan cs = (.invalidEscape start stop, n)) :
    ∃ before text after, '\x22' :: cs.take n = before ++ text ++ after ∧
      start = Text.byteLength before ∧ stop = start + Text.byteLength text := by
  unfold scan at h
  have hstart : Progress.Follows cs 0 ⟨0, 0, [], none⟩ cs :=
    ⟨⟨[], rfl, rfl, rfl⟩, fun _ _ hinvalid => nomatch hinvalid⟩
  cases hread : readBody? 0 ⟨0, 0, [], none⟩ cs with
  | none =>
      rw [hread] at h
      cases h
  | some p =>
      rw [hread, Prod.mk.injEq] at h
      obtain ⟨htoken, rfl⟩ := h
      obtain ⟨rest, ⟨taken, hwhole, -, hcount⟩, hcovers⟩ := readBody?_follows hstart hread
      cases hinvalid : p.invalid with
      | none =>
          rw [Progress.token, hinvalid] at htoken
          cases htoken
      | some range =>
          rw [Progress.token, hinvalid] at htoken
          obtain ⟨rfl, rfl⟩ := Token.invalidEscape.inj htoken
          obtain ⟨before, text, after, hsplit, hfirst, hsecond, hbound⟩ :=
            hcovers range.1 range.2 hinvalid
          have hprefix : before ++ text <+: cs.take p.count := by
            refine List.prefix_take_iff.mpr ⟨⟨after, hsplit.symm⟩, ?_⟩
            simpa using hbound
          obtain ⟨last, hlast⟩ := hprefix
          refine ⟨'\x22' :: before, text, last, ?_, ?_, ?_⟩
          · rw [← hlast]
            simp only [List.cons_append, List.append_assoc]
          · rw [hfirst, Text.byteLength, show '\x22'.utf8Size = 1 from rfl, Nat.add_comm]
          · omega

end StringLiteral

namespace Token

/-- Each token is what a step takes at its place. -/
theorem exists_scan_of_mem_lexFrom
    {offset : Nat}
    {cs : List Char}
    {p : Placed}
    (hp : p ∈ lexFrom offset cs) :
    ∃ before c rest, cs = before ++ c :: rest ∧ offset + Text.byteLength before = p.start ∧
      p.text = c :: rest.take (scan c rest).2 ∧ (scan c rest).1 = some p.token := by
  induction hn : cs.length using Nat.strong_induction_on generalizing offset cs with
  | _ n ih =>
      cases cs with
      | nil =>
          rw [lexFrom] at hp
          cases hp
      | cons c cs =>
          rw [lexFrom_cons] at hp
          rcases List.mem_append.mp hp with hfirst | hrest
          · obtain ⟨token, htoken, rfl⟩ := List.mem_map.mp hfirst
            exact ⟨[], c, cs, rfl, rfl, rfl, Option.mem_toList.mp htoken⟩
          · have hshorter : (cs.drop (scan c cs).2).length < n := by
              rw [← hn, List.length_drop, List.length_cons]
              omega
            obtain ⟨before, d, rest, hsplit, hstart, htaken⟩ := ih _ hshorter hrest rfl
            refine ⟨c :: cs.take (scan c cs).2 ++ before, d, rest, ?_, ?_, htaken⟩
            · rw [List.append_assoc, ← hsplit, List.cons_append, List.take_append_drop]
            · rw [Text.byteLength_append]
              omega

theorem Piece.text_of_stray
    {after text : List Char}
    {c : Char}
    (h : Piece after (some (.stray c)) text) :
    text = [c] := by
  generalize htoken : some (Token.stray c) = token at h
  cases h with
  | gap _ =>
      cases htoken
  | literal hstring _ =>
      cases htoken
      exact hstring.elim
  | longest hmakes _ =>
      cases htoken
      generalize hstray : Token.stray c = token at hmakes
      cases hmakes <;> cases hstray
  | stray d _ =>
      cases htoken
      rfl

/-- A string literal is read at its opening quote. -/
theorem scan_of_isString
    {c : Char}
    {cs : List Char}
    {token : Token}
    (hstring : token.IsString)
    (h : (scan c cs).1 = some token) :
    c = '\x22' ∧ (StringLiteral.scan cs).1 = token := by
  have hpiece := scan_piece c cs
  rw [StepPiece, h] at hpiece
  obtain rfl : c = '\x22' := Option.some.inj (hpiece.quote_of_isString hstring)
  rw [scan_quote] at h
  exact ⟨rfl, Option.some.inj h⟩

/-- A string literal is what is read behind its opening quote. -/
theorem exists_literal_of_mem_lex
    {source : String}
    {p : Placed}
    (hp : p ∈ lex source)
    (hstring : p.token.IsString) :
    ∃ before rest, source.toList = before ++ '\x22' :: rest ∧ Text.byteLength before = p.start ∧
      p.text = '\x22' :: rest.take (StringLiteral.scan rest).2 ∧
      (StringLiteral.scan rest).1 = p.token := by
  obtain ⟨before, c, rest, hsplit, hstart, htext, hscan⟩ := exists_scan_of_mem_lexFrom hp
  obtain ⟨rfl, hliteral⟩ := scan_of_isString hstring hscan
  rw [scan_quote] at htext
  exact ⟨before, rest, hsplit, by omega, htext, hliteral⟩

/-- An invalid escape stands within its literal, at its range. -/
theorem invalidEscape_of_mem_lex
    {source : String}
    {p : Placed}
    {start stop : Nat}
    (hp : p ∈ lex source)
    (htoken : p.token = .invalidEscape start stop) :
    ∃ before text after, p.text = before ++ text ++ after ∧ start = Text.byteLength before ∧
      stop = start + Text.byteLength text ∧ Lexeme.slice start stop 0 p.text = text := by
  have hstring : p.token.IsString := by
    rw [htoken]
    trivial
  obtain ⟨-, rest, -, -, htext, hliteral⟩ := exists_literal_of_mem_lex hp hstring
  obtain ⟨before, text, after, hsplit, rfl, rfl⟩ :=
    StringLiteral.scan_invalidEscape (Prod.ext (hliteral.trans htoken) rfl)
  rw [htext]
  exact ⟨before, text, after, hsplit, rfl, rfl, by rw [hsplit]; exact Lexeme.slice_append ..⟩

end Token
end Schemata
