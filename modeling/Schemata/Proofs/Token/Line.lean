import Schemata.Proofs.Token.Denotation

/-!
# String literals and their lines

A literal has to be closed on its line.  Reading looks at one character after the
other, and what it needs to know of the characters behind is on the line, with
one exception: behind a brace that an escape opens, the brace that closes it is
looked for in all the text that follows.  Where the line does not have one, it is
found on a later line, and the closing quote and the end of the line are passed
as digits of the escape.

So a line is said to open a brace when such an escape is reached on it.  Other
lines decide by themselves how a literal on them ends.

**Results.**
* `scan_append`: a literal on a line that opens no brace, or before a text without a brace that
  closes.
* `scan_across`, `scan_cutOff`: the other literals.
* `lex_string_lines`: which string literals are confined to their line.
-/

namespace Schemata
namespace StringLiteral

open Text (HexNumber)

section Passing

variable {cs rest after line : List Char}
variable {c : Char}

/-- The inside of a literal goes on from item to item, good or bad, up to a place. -/
inductive Passes : List Char → List Char → Prop
  | refl
      (cs : List Char) :
      Passes cs cs
  | plain
      {c : Char}
      {cs rest : List Char}
      (hquote : c ≠ '\x22')
      (hbackslash : c ≠ '\\')
      (hline : c ≠ '\n')
      (h : Passes cs rest) :
      Passes (c :: cs) rest
  /-- A backslash and a letter; the digits of a hexadecimal escape are plain. -/
  | pair
      {c : Char}
      {cs rest : List Char}
      (hletter : c ≠ 'u')
      (hline : c ≠ '\n')
      (h : Passes cs rest) :
      Passes ('\\' :: c :: cs) rest
  | bare
      {cs rest : List Char}
      (hbare : cs.head? ≠ some '\x7b')
      (h : Passes cs rest) :
      Passes ('\\' :: 'u' :: cs) rest
  | braced
      {body cs rest : List Char}
      (hbody : '\x7d' ∉ body)
      (h : Passes cs rest) :
      Passes ('\\' :: 'u' :: '\x7b' :: (body ++ '\x7d' :: cs)) rest

/-- An escape on the line opens a brace that is not closed on the line. -/
def OpensBrace
    (line : List Char) : Prop :=
  ∃ body, Passes line ('\\' :: 'u' :: '\x7b' :: body) ∧ '\x7d' ∉ body

theorem Passes.append
    (h : Passes cs rest)
    (hend : ∀ c ∈ after.head?, c = '\n') :
    Passes (cs ++ after) (rest ++ after) := by
  induction h with
  | refl cs => exact .refl _
  | plain hquote hbackslash hline _ ih => exact .plain hquote hbackslash hline ih
  | pair hletter hline _ ih => exact .pair hletter hline ih
  | @bare cs rest hbare _ ih =>
      refine .bare ?_ ih
      cases cs with
      | nil => exact fun hhead => absurd (hend _ hhead) (by decide)
      | cons => exact hbare
  | @braced body cs rest hbody _ ih =>
      rw [List.cons_append, List.cons_append, List.cons_append, List.append_assoc]
      exact .braced hbody ih

theorem Passes.of_plain
    (h : Passes (c :: cs) rest)
    (hbackslash : c ≠ '\\')
    (hrest : rest.head? = some '\\') :
    Passes cs rest := by
  cases h with
  | refl => exact absurd (Option.some.inj hrest) hbackslash
  | plain _ _ _ h => exact h
  | pair | bare | braced => exact absurd rfl hbackslash

/-- A place at a backslash is not within plain characters. -/
theorem Passes.of_plains
    {text : List Char}
    (h : Passes (text ++ cs) rest)
    (htext : '\\' ∉ text)
    (hrest : rest.head? = some '\\') :
    Passes cs rest := by
  induction text with
  | nil =>
      exact h
  | cons c text ih =>
      obtain ⟨hbackslash, htext⟩ := List.ne_and_not_mem_of_not_mem_cons htext
      exact ih (h.of_plain hbackslash.symm hrest) htext

theorem ne_of_mem_letters
    {a : Char}
    (h : (a, c) ∈ letters) :
    a ≠ 'u' ∧ a ≠ '\n' := by
  simp only [letters, List.mem_cons, Prod.mk.injEq, List.not_mem_nil, or_false] at h
  rcases h with ⟨rfl, -⟩ | ⟨rfl, -⟩ | ⟨rfl, -⟩ | ⟨rfl, -⟩ | ⟨rfl, -⟩ | ⟨rfl, -⟩ | ⟨rfl, -⟩ <;> decide

/-- Digits are no characters that end or interrupt a literal. -/
theorem ne_of_mem_digits
    {digits : List Char}
    {n : Nat}
    (hvalue : HexNumber digits n) :
    ∀ c ∈ digits, c ≠ '\x22' ∧ c ≠ '\\' ∧ c ≠ '\n' := by
  have hne : ∀ d, Text.hexValue? d = none → ∀ c ∈ digits, c ≠ d := fun d hd c hc heq =>
    hvalue.notMem hd (heq ▸ hc)
  exact fun c hc => ⟨hne _ (by decide) c hc, hne _ (by decide) c hc, hne _ (by decide) c hc⟩

theorem drop_braced
    (body cs : List Char) :
    ('u' :: '\x7b' :: (body ++ '\x7d' :: cs)).drop (body.length + 3) = cs := by
  rw [List.drop_succ_cons, List.drop_succ_cons, List.drop_length_add_append, List.drop_succ_cons,
    List.drop_zero]

/-- From a backslash an escape is passed, as it is read. -/
theorem Passes.drop_escape
    (h : Passes ('\\' :: cs) rest)
    (hrest : rest.head? = some '\\') :
    rest = '\\' :: cs ∨ Passes (cs.drop (escape cs).length) rest := by
  cases h with
  | refl =>
      exact Or.inl rfl
  | plain _ hbackslash =>
      exact absurd rfl hbackslash
  | @pair c cs _ hletter hline h =>
      right
      have hshape := escape_shape (c :: cs)
      generalize escape (c :: cs) = e at hshape
      cases hshape with
      | lineEnd hend => exact absurd (hend c rfl) hline
      | letter | bad => exact h
      | @hex digits cs _ hlength hvalue =>
          -- The digits are passed at once here, and one by one in `Passes`.
          rw [List.drop_succ_cons, List.drop_left' hlength]
          exact h.of_plains (hvalue.notMem (by decide)) hrest
      | braced | bare => exact absurd rfl hletter
  | @bare cs _ hbare h =>
      have hescape : escape ('u' :: cs) = bracedEscape cs := rfl
      rw [hescape, bracedEscape_bare (Or.inl hbare)]
      exact Or.inr h
  | @braced body cs _ hbody h =>
      have hescape : escape ('u' :: '\x7b' :: (body ++ '\x7d' :: cs)) =
          bracedEscape ('\x7b' :: (body ++ '\x7d' :: cs)) := rfl
      rw [hescape, bracedEscape_closed hbody, drop_braced]
      exact Or.inr h

theorem OpensBrace.plain
    (h : OpensBrace cs)
    (hplain : c ≠ '\x22' ∧ c ≠ '\\' ∧ c ≠ '\n') :
    OpensBrace (c :: cs) := by
  obtain ⟨body, hpasses, hbody⟩ := h
  exact ⟨body, .plain hplain.1 hplain.2.1 hplain.2.2 hpasses, hbody⟩

theorem OpensBrace.plains
    {text : List Char}
    (h : OpensBrace cs)
    (htext : ∀ c ∈ text, c ≠ '\x22' ∧ c ≠ '\\' ∧ c ≠ '\n') :
    OpensBrace (text ++ cs) := by
  induction text with
  | nil => exact h
  | cons c text ih =>
      obtain ⟨hplain, htext⟩ := List.forall_mem_cons.mp htext
      exact (ih htext).plain hplain

theorem OpensBrace.pair
    (h : OpensBrace cs)
    (hletter : c ≠ 'u')
    (hline : c ≠ '\n') :
    OpensBrace ('\\' :: c :: cs) := by
  obtain ⟨body, hpasses, hbody⟩ := h
  exact ⟨body, .pair hletter hline hpasses, hbody⟩

/-- A brace that is open behind an escape is reached from the escape, if none is open before. -/
theorem opensBrace_of_drop_escape
    (hline : '\n' ∉ cs)
    (h : OpensBrace (cs.drop (escape cs).length)) :
    OpensBrace ('\\' :: cs) := by
  have hshape := escape_shape cs
  generalize escape cs = e at h hshape
  cases hshape with
  | lineEnd hend =>
      cases cs with
      | nil =>
          obtain ⟨body, hpasses, -⟩ := h
          cases hpasses
      | cons c cs =>
          exact absurd (hend c rfl ▸ List.mem_cons_self) hline
  | letter hletter =>
      have hne := ne_of_mem_letters hletter
      exact h.pair hne.1 hne.2
  | @hex digits cs _ hlength hvalue =>
      rw [List.drop_succ_cons, List.drop_left' hlength] at h
      exact (h.plains (ne_of_mem_digits hvalue)).pair (by decide) (by decide)
  | @braced digits cs hdigits =>
      rw [drop_braced] at h
      obtain ⟨body, hpasses, hbody⟩ := h
      exact ⟨body, .braced hdigits hpasses, hbody⟩
  | @bare cs hbare =>
      by_cases hhead : cs.head? = some '\x7b'
      · obtain ⟨digits, rfl⟩ := List.head?_eq_some_iff.mp hhead
        have hdigits := hbare.resolve_left fun hne => hne hhead
        exact ⟨digits, .refl _, fun hmem => hdigits (List.mem_cons_of_mem _ hmem)⟩
      · obtain ⟨body, hpasses, hbody⟩ := h
        exact ⟨body, .bare hhead hpasses, hbody⟩
  | bad hletter hbreak =>
      exact h.pair hletter hbreak

end Passing

section Confined

variable {cs after line : List Char}
variable {p : Progress}

theorem escape_length_le
    (cs : List Char) :
    (escape cs).length ≤ cs.length := by
  have hshape := escape_shape cs
  generalize escape cs = e at hshape
  cases hshape with
  | lineEnd => exact Nat.zero_le _
  | letter | bare | bad => exact Nat.le_add_left 1 _
  | hex hlength =>
      rw [List.length_cons, List.length_append, hlength]
      change 3 ≤ _
      omega
  | braced =>
      simp only [List.length_cons, List.length_append]
      omega

/-- The end of the line is no digit. -/
theorem hexEscape_append
    (hend : ∀ c ∈ after.head?, c = '\n')
    (cs : List Char) :
    hexEscape (cs ++ after) = hexEscape cs := by
  have hnone : ∀ a b, a = '\n' ∨ b = '\n' → Text.hexDigits? [a, b] = none := by
    intro a b h
    cases hdigits : Text.hexDigits? [a, b] with
    | none => rfl
    | some n =>
        have hbreak : Text.hexValue? '\n' = none := by decide
        refine absurd ?_ ((Text.hexDigits?_eq_some_iff.mp hdigits).notMem hbreak)
        rcases h with rfl | rfl
        · exact List.mem_cons_self
        · exact List.mem_cons_of_mem a List.mem_cons_self
  match cs, after, hend with
  | [], [], _ | [], [_], _ | [_], [], _ | _ :: _ :: _, _, _ =>
      rfl
  | [], c :: d :: after, hend =>
      rw [List.nil_append, hexEscape, hnone c d (Or.inl (hend c rfl))]
      rfl
  | [a], c :: after, hend =>
      rw [List.singleton_append, hexEscape, hnone a c (Or.inr (hend c rfl))]
      rfl

theorem bracedEscape_append
    (hend : ∀ c ∈ after.head?, c = '\n')
    (h : ¬OpensBrace ('\\' :: 'u' :: cs) ∨ '\x7d' ∉ after) :
    bracedEscape (cs ++ after) = bracedEscape cs := by
  rcases closed_or_bare cs with ⟨body, rest, rfl, hbody⟩ | hbare
  · rw [List.cons_append, List.append_assoc, List.cons_append, bracedEscape_closed hbody,
      bracedEscape_closed hbody]
  · rw [bracedEscape_bare hbare]
    refine bracedEscape_bare ?_
    match cs with
    | [] =>
        left
        intro hhead
        exact absurd (hend _ hhead) (by decide)
    | c :: cs =>
        by_cases hc : c = '\x7b'
        · subst hc
          have hcs := hbare.resolve_left fun hne => hne rfl
          have hopen : OpensBrace ('\\' :: 'u' :: '\x7b' :: cs) :=
            ⟨cs, .refl _, fun hmem => hcs (List.mem_cons_of_mem _ hmem)⟩
          have hafter := h.resolve_left fun hnot => hnot hopen
          exact Or.inr fun hmem => (List.mem_append.mp hmem).elim hcs hafter
        · exact Or.inl fun hhead => hc (Option.some.inj hhead)

/-- What follows the line does not matter to an escape, unless it closes a brace that the escape
opens. -/
theorem escape_append
    (hend : ∀ c ∈ after.head?, c = '\n')
    (h : ¬OpensBrace ('\\' :: cs) ∨ '\x7d' ∉ after) :
    escape (cs ++ after) = escape cs := by
  match cs with
  | [] =>
      cases after with
      | nil => rfl
      | cons c after =>
          obtain rfl := hend c rfl
          rfl
  | c :: cs =>
      by_cases hbraced : c = 'u'
      · subst hbraced
        exact bracedEscape_append hend h
      · simp only [List.cons_append, escape, if_neg hbraced, hexEscape_append hend]

theorem Progress.take_append
    (p : Progress)
    (after : List Char) :
    p.take (escape cs) (cs ++ after) = p.take (escape cs) cs := by
  unfold Progress.take
  rw [List.take_append_of_le_length (escape_length_le cs)]

/-- What follows the line does not matter to a literal, unless it closes a brace that the line
opens. -/
theorem readBody?_append
    {skip : Nat}
    (hskip : skip ≤ cs.length)
    (hline : '\n' ∉ cs)
    (hend : ∀ c ∈ after.head?, c = '\n')
    (h : ¬OpensBrace (cs.drop skip) ∨ '\x7d' ∉ after) :
    readBody? skip p (cs ++ after) = readBody? skip p cs := by
  fun_induction readBody? skip p cs with
  | case1 skip p =>
      obtain rfl := Nat.le_zero.mp hskip
      exact readBody?_lineEnd p hend
  | case2 skip p c cs ih =>
      rw [List.cons_append, readBody?]
      exact ih (Nat.le_of_succ_le_succ hskip) (fun hmem => hline (List.mem_cons_of_mem c hmem)) h
  | case3 p cs =>
      rw [List.cons_append, readBody?, if_pos rfl]
  | case4 p cs =>
      exact absurd List.mem_cons_self hline
  | case5 p cs hquote hbreak ih =>
      -- The escape is the same with and without the text behind the line, and ends on the line.
      have hline : '\n' ∉ cs := fun hmem => hline (List.mem_cons_of_mem _ hmem)
      rw [List.cons_append, readBody?_backslash, escape_append hend h, Progress.take_append]
      exact ih (escape_length_le cs) hline (h.imp_left (mt (opensBrace_of_drop_escape hline)))
  | case6 p c cs hquote hbreak hbackslash ih =>
      rw [List.cons_append, readBody?_plain p hquote hbackslash hbreak]
      refine ih (Nat.zero_le _) (fun hmem => hline (List.mem_cons_of_mem c hmem)) ?_
      exact h.imp_left (mt fun hopen => hopen.plain ⟨hquote, hbackslash, hbreak⟩)

theorem takeWhile_append_of_head?
    {d : Char}
    {text : List Char}
    (htext : d ∉ text)
    (hafter : ∀ c ∈ after.head?, c = d) :
    (text ++ after).takeWhile (· != d) = text := by
  rw [List.takeWhile_append_of_pos (bne_of_notMem htext)]
  cases after with
  | nil => simp
  | cons c after => simp [hafter c rfl]

/-- A line on which no brace stays open decides how a literal on it ends. -/
theorem scan_append
    (hline : '\n' ∉ line)
    (hend : ∀ c ∈ after.head?, c = '\n')
    (h : ¬OpensBrace line ∨ '\x7d' ∉ after) :
    scan (line ++ after) = scan line := by
  have halone : (line ++ []).takeWhile (· != '\n') = line :=
    takeWhile_append_of_head? hline nofun
  rw [List.append_nil] at halone
  rw [scan, scan, readBody?_append (Nat.zero_le _) hline hend h,
    takeWhile_append_of_head? hline hend, halone]

end Confined

section Across

variable {cs rest line far : List Char}
variable {p q r : Progress}

theorem Progress.take_count
    (p : Progress)
    (e : Escape)
    (cs : List Char) :
    (p.take e cs).count = p.count := by
  unfold Progress.take
  split
  · rfl
  · split <;> rfl

theorem Progress.exists_invalid_take
    (p : Progress)
    {e : Escape}
    (he : e.decoded = none)
    (cs : List Char) :
    ∃ range, (p.take e cs).invalid = some range := by
  cases hinvalid : p.invalid with
  | some range => exact ⟨range, by simp [Progress.take, he, hinvalid]⟩
  | none => exact ⟨_, by simp only [Progress.take, he, hinvalid]; rfl⟩

/-- From a backslash reading goes on behind the escape. -/
theorem readBody?_drop_escape
    (p : Progress)
    (cs : List Char) :
    ∃ q, q.count = p.count + 1 + (escape cs).length ∧
      q.invalid = (p.take (escape cs) cs).invalid ∧
      readBody? 0 p ('\\' :: cs) = readBody? 0 q (cs.drop (escape cs).length) := by
  have hlength : (cs.take (escape cs).length).length = (escape cs).length :=
    List.length_take_of_le (escape_length_le cs)
  have hskip := readBody?_skip ((p.take (escape cs) cs).pass '\\')
    (cs.take (escape cs).length) (cs.drop (escape cs).length)
  rw [hlength, List.take_append_drop] at hskip
  refine ⟨_, ?_, ?_, (readBody?_backslash p cs).trans hskip⟩
  · change (p.take (escape cs) cs).count + 1 + (cs.take (escape cs).length).length = _
    rw [Progress.take_count, hlength]
  · rfl

/-- Reading arrives where the items lead. -/
theorem readBody?_passes
    (h : Passes cs rest)
    (hrest : rest.head? = some '\\')
    (p : Progress) :
    ∃ q, q.count + rest.length = p.count + cs.length ∧ readBody? 0 p cs = readBody? 0 q rest := by
  induction hn : cs.length using Nat.strong_induction_on generalizing cs p with
  | _ n ih =>
      cases cs with
      | nil =>
          cases h
          cases hrest
      | cons c cs =>
          by_cases hbackslash : c = '\\'
          · subst hbackslash
            rcases h.drop_escape hrest with rfl | hdrop
            · exact ⟨p, by rw [hn], rfl⟩
            · have hle := escape_length_le cs
              obtain ⟨q, hq, -, hread⟩ := readBody?_drop_escape p cs
              have hshorter : (cs.drop (escape cs).length).length < n := by
                rw [← hn, List.length_drop, List.length_cons]
                omega
              obtain ⟨r, hr, hread'⟩ := ih _ hshorter hdrop q rfl
              refine ⟨r, ?_, hread.trans hread'⟩
              rw [List.length_drop] at hr
              rw [← hn, List.length_cons]
              omega
          · cases h with
            | refl => exact absurd (Option.some.inj hrest) hbackslash
            | plain hquote _ hbreak h =>
                obtain ⟨q, hq, hread⟩ := ih cs.length (hn ▸ Nat.lt_succ_self _) h
                  (p.after [c] [c]) rfl
                refine ⟨q, ?_, (readBody?_plain p hquote hbackslash hbreak cs).trans hread⟩
                rw [hq, ← hn]
                change p.count + 1 + cs.length = p.count + (cs.length + 1)
                omega
            | pair | bare | braced => exact absurd rfl hbackslash

/-- Where a literal ends does not depend on what has been read of it. -/
theorem exists_readBody?
    {skip : Nat}
    (h : readBody? skip p cs = some r)
    (q : Progress) :
    ∃ r', readBody? skip q cs = some r' ∧ r'.count + p.count = r.count + q.count := by
  fun_induction readBody? skip p cs generalizing q with
  | case1 =>
      cases h
  | case2 skip p c cs ih =>
      obtain ⟨r', hread, hcount⟩ := ih h (q.pass c)
      exact ⟨r', hread, by simp only [Progress.pass] at hcount; omega⟩
  | case3 p cs =>
      cases h
      refine ⟨q.pass '\x22', rfl, ?_⟩
      simp only [Progress.pass]
      omega
  | case4 =>
      cases h
  | case5 p cs hquote hbreak ih =>
      obtain ⟨r', hread, hcount⟩ := ih h ((q.take (escape cs) cs).pass '\\')
      refine ⟨r', (readBody?_backslash q cs).trans hread, ?_⟩
      simp only [Progress.pass, Progress.take_count] at hcount
      omega
  | case6 p c cs hquote hbreak hbackslash ih =>
      obtain ⟨r', hread, hcount⟩ := ih h ((q.push c).pass c)
      refine ⟨r', (readBody?_plain q hquote hbackslash hbreak cs).trans hread, ?_⟩
      simp only [Progress.pass, Progress.push] at hcount
      omega

/-- Where a later line closes the brace, reading goes on behind it. -/
theorem readBody?_across
    (hopen : OpensBrace line)
    (hend : ∀ c ∈ (far ++ '\x7d' :: rest).head?, c = '\n')
    (hfar : '\x7d' ∉ far)
    (p : Progress) :
    ∃ q range, q.count = p.count + line.length + far.length + 1 ∧ q.invalid = some range ∧
      readBody? 0 p (line ++ (far ++ '\x7d' :: rest)) = readBody? 0 q rest := by
  obtain ⟨body, hpasses, hbody⟩ := hopen
  have hclose : '\x7d' ∉ body ++ far := fun hmem =>
    (List.mem_append.mp hmem).elim hbody hfar
  have hbreak : '\n' ∈ far := by
    cases far with
    | nil => exact absurd (hend _ rfl) (by decide)
    | cons c far => exact hend c rfl ▸ List.mem_cons_self
  have hescape : escape ('u' :: '\x7b' :: (body ++ far ++ '\x7d' :: rest)) =
      ⟨none, (body ++ far).length + 3⟩ := by
    -- The digits go over the end of the line, so the escape names no character.
    have hnone : bracedScalar? (body ++ far) = none := by
      refine Option.eq_none_iff_forall_ne_some.mpr fun c hc => ?_
      obtain ⟨-, -, hvalue⟩ := bracedScalar?_eq_some_iff.mp hc
      exact hvalue.notMem (by decide) (List.mem_append_right body hbreak)
    rw [← hnone]
    exact bracedEscape_closed hclose rest
  obtain ⟨q, hq, hread⟩ := readBody?_passes (hpasses.append hend) rfl p
  rw [List.cons_append, List.cons_append, List.cons_append, ← List.append_assoc body] at hq hread
  obtain ⟨r, hr, hinvalid, hread'⟩ := readBody?_drop_escape q
    ('u' :: '\x7b' :: (body ++ far ++ '\x7d' :: rest))
  rw [hescape] at hr hinvalid hread'
  rw [drop_braced] at hread'
  have hbad : (⟨none, (body ++ far).length + 3⟩ : Escape).decoded = none := rfl
  obtain ⟨range, hrange⟩ := q.exists_invalid_take hbad
    ('u' :: '\x7b' :: (body ++ far ++ '\x7d' :: rest))
  refine ⟨r, range, ?_, hinvalid.trans hrange, hread.trans hread'⟩
  simp only [List.length_cons, List.length_append] at hq hr
  omega

theorem scan_eq_unterminated_iff :
    (scan cs).1 = .unterminated ↔ readBody? 0 ⟨0, 0, [], none⟩ cs = none := by
  unfold scan
  cases readBody? 0 ⟨0, 0, [], none⟩ cs with
  | none => simp
  | some p =>
      have htoken : p.token ≠ .unterminated := by
        unfold Progress.token
        cases p.invalid <;> exact nofun
      simp [htoken]

/-- A literal whose brace is closed on a later line ends where one ends that begins behind this
brace. -/
theorem scan_across
    (hopen : OpensBrace line)
    (hend : ∀ c ∈ (far ++ '\x7d' :: rest).head?, c = '\n')
    (hfar : '\x7d' ∉ far)
    (hclosed : (scan rest).1 ≠ .unterminated) :
    ∃ start stop, scan (line ++ (far ++ '\x7d' :: rest)) =
      (.invalidEscape start stop, line.length + far.length + 1 + (scan rest).2) := by
  obtain ⟨q, range, hq, hinvalid, hread⟩ := readBody?_across hopen hend hfar ⟨0, 0, [], none⟩
  obtain ⟨r, hr⟩ := Option.ne_none_iff_exists'.mp (mt scan_eq_unterminated_iff.mpr hclosed)
  obtain ⟨r', hr', hcount⟩ := exists_readBody? hr q
  refine ⟨range.1 + 1, range.2 + 1, ?_⟩
  rw [scan, hread, hr', scan, hr]
  simp only [Progress.token, invalid_of_readBody? hinvalid hr', Prod.mk.injEq, true_and]
  omega

/-- Where none that begins behind this brace is closed, the literal is not closed either. -/
theorem scan_cutOff
    (hline : '\n' ∉ line)
    (hopen : OpensBrace line)
    (hend : ∀ c ∈ (far ++ '\x7d' :: rest).head?, c = '\n')
    (hfar : '\x7d' ∉ far)
    (hnone : (scan rest).1 = .unterminated) :
    scan (line ++ (far ++ '\x7d' :: rest)) = (.unterminated, line.length) := by
  obtain ⟨q, -, -, -, hread⟩ := readBody?_across hopen hend hfar ⟨0, 0, [], none⟩
  have hbody : readBody? 0 q rest = none := by
    refine Option.eq_none_iff_forall_ne_some.mpr fun r hr => ?_
    obtain ⟨r', hr', -⟩ := exists_readBody? hr ⟨0, 0, [], none⟩
    rw [scan_eq_unterminated_iff.mp hnone] at hr'
    cases hr'
  rw [scan, hread, hbody, takeWhile_append_of_head? hline hend]

theorem scan_length_le
    (cs : List Char) :
    (scan cs).2 ≤ cs.length := by
  unfold scan
  cases hread : readBody? 0 ⟨0, 0, [], none⟩ cs with
  | none => exact (List.takeWhile_prefix _).length_le
  | some p =>
      have hstart : Progress.Follows cs 0 ⟨0, 0, [], none⟩ cs :=
        ⟨⟨[], rfl, rfl, rfl⟩, fun _ _ hinvalid => nomatch hinvalid⟩
      obtain ⟨rest, ⟨taken, hwhole, -, hcount⟩, -⟩ := readBody?_follows hstart hread
      have hlength := congrArg List.length hwhole
      rw [List.length_append] at hlength
      change p.count ≤ cs.length
      omega

end Across

/-- How a literal ends that begins on a line, where some text follows the line: its token, and the
text behind its opening quote. -/
inductive Ends
    (line after : List Char) :
    Token → List Char → Prop
  /-- On its line, as if nothing followed. -/
  | within
      (h : ¬OpensBrace line ∨ '\x7d' ∉ after) :
      Ends line after (scan line).1 (line.take (scan line).2)
  /-- Behind a brace on a later line, with the literal that would begin there. -/
  | across
      {far rest : List Char}
      {start stop : Nat}
      (hopen : OpensBrace line)
      (hafter : after = far ++ '\x7d' :: rest)
      (hfar : '\x7d' ∉ far)
      (hclosed : (scan rest).1 ≠ .unterminated) :
      Ends line after (.invalidEscape start stop)
        (line ++ (far ++ '\x7d' :: rest.take (scan rest).2))
  /-- With its line, since no literal that would begin there is closed. -/
  | cutOff
      {far rest : List Char}
      (hopen : OpensBrace line)
      (hafter : after = far ++ '\x7d' :: rest)
      (hfar : '\x7d' ∉ far)
      (hnone : (scan rest).1 = .unterminated) :
      Ends line after .unterminated line

section Ending

variable {line after text : List Char}
variable {token : Token}

theorem scan_ends
    (hline : '\n' ∉ line)
    (hend : ∀ c ∈ after.head?, c = '\n') :
    Ends line after (scan (line ++ after)).1 ((line ++ after).take (scan (line ++ after)).2) := by
  by_cases h : ¬OpensBrace line ∨ '\x7d' ∉ after
  · rw [scan_append hline hend h, List.take_append_of_le_length (scan_length_le line)]
    exact .within h
  · obtain ⟨hopen, hmem⟩ := not_or.mp h
    obtain ⟨far, rest, rfl, hfar⟩ := List.eq_append_cons_of_mem (not_not.mp hmem)
    have hopen := not_not.mp hopen
    by_cases hnone : (scan rest).1 = .unterminated
    · rw [scan_cutOff hline hopen hend hfar hnone, List.take_left]
      exact .cutOff hopen rfl hfar hnone
    · obtain ⟨start, stop, hscan⟩ := scan_across hopen hend hfar hnone
      have htake : (line ++ (far ++ '\x7d' :: rest)).take
          (line.length + far.length + 1 + (scan rest).2) =
            line ++ (far ++ '\x7d' :: rest.take (scan rest).2) := by
        rw [Nat.add_assoc, Nat.add_assoc, List.take_length_add_append,
          List.take_length_add_append, Nat.add_comm 1, List.take_succ_cons]
      rw [hscan, htake]
      exact .across hopen rfl hfar hnone

/-- A literal leaves its line exactly when it ends behind a brace on a later line. -/
theorem Ends.lineFeed_mem_iff
    (h : Ends line after token text)
    (hline : '\n' ∉ line)
    (hend : ∀ c ∈ after.head?, c = '\n') :
    '\n' ∈ text ↔ OpensBrace line ∧ ∃ far rest, after = far ++ '\x7d' :: rest ∧ '\x7d' ∉ far ∧
      (scan rest).1 ≠ .unterminated := by
  cases h with
  | within h =>
      refine ⟨fun hmem => absurd (List.mem_of_mem_take hmem) hline, ?_⟩
      rintro ⟨hopen, far, rest, rfl, -, -⟩
      rcases h with h | h
      · exact absurd hopen h
      · exact absurd (List.mem_append_right far List.mem_cons_self) h
  | @across far rest _ _ hopen hafter hfar hclosed =>
      refine ⟨fun _ => ⟨hopen, far, rest, hafter, hfar, hclosed⟩, fun _ => ?_⟩
      subst hafter
      refine List.mem_append_right line (List.mem_append_left _ ?_)
      cases far with
      | nil => exact absurd (hend _ rfl) (by decide)
      | cons c far => exact hend c rfl ▸ List.mem_cons_self
  | @cutOff far rest hopen hafter hfar hnone =>
      refine ⟨fun hmem => absurd hmem hline, ?_⟩
      rintro ⟨-, far', rest', hafter', hfar', hclosed⟩
      have hcut := takeWhile_append_of_head? hfar (by simp : ∀ c ∈ ('\x7d' :: rest).head?, c = '\x7d')
      have hfirst : far = far' := by
        rw [← hcut, ← hafter, hafter', takeWhile_append_of_head? hfar' (by simp)]
      rw [hafter, hfirst] at hafter'
      obtain rfl := (List.cons.inj (List.append_cancel_left hafter')).2
      exact absurd hnone hclosed

/-- What follows a line does not matter to a literal on it, or just to where the literal ends,
exactly when the line opens no brace. -/
theorem scan_append_tfae
    (hline : '\n' ∉ line) :
    [¬OpensBrace line,
      ∀ after, (∀ c ∈ after.head?, c = '\n') → scan (line ++ after) = scan line,
      ∀ after, (∀ c ∈ after.head?, c = '\n') →
        (scan (line ++ after)).2 = (scan line).2].TFAE := by
  tfae_have 1 → 2 := fun hopen after hend => scan_append hline hend (Or.inl hopen)
  tfae_have 2 → 3 := fun h after hend => congrArg Prod.snd (h after hend)
  tfae_have 3 → 1 := by
    intro h hopen
    have hend : ∀ c ∈ (['\n'] ++ '\x7d' :: ['\x22']).head?, c = '\n' := by simp
    have hclosed : (scan ['\x22']).1 ≠ .unterminated := by decide
    obtain ⟨start, stop, hscan⟩ := scan_across hopen hend (by decide) hclosed
    have hsame := h _ hend
    have hle := scan_length_le line
    rw [hscan, List.length_singleton] at hsame
    omega
  tfae_finish

end Ending

end StringLiteral

namespace Token

open StringLiteral (Ends OpensBrace)

/-- A text is a line and what follows the line. -/
theorem exists_line
    (cs : List Char) :
    ∃ line after, cs = line ++ after ∧ '\n' ∉ line ∧ ∀ c ∈ after.head?, c = '\n' := by
  by_cases hmem : '\n' ∈ cs
  · obtain ⟨line, after, rfl, hline⟩ := List.eq_append_cons_of_mem hmem
    exact ⟨line, '\n' :: after, rfl, hline, by simp⟩
  · exact ⟨cs, [], (List.append_nil cs).symm, hmem, by simp⟩

/-- String literals and their lines.

* A string literal begins with a quote on some line.  It ends as `Ends` says: where no escape on
  the line opens a brace that the line does not close, it is read as if nothing followed the line.
* Its text goes over the end of the line exactly when such an escape is reached on the line, a
  brace is closed on a later line, and behind the first such brace a literal would be closed.
* What follows a line never matters to a literal on it, or just to where the literal ends, exactly
  when no such escape is reached on the line. -/
theorem lex_string_lines
    (source : String) :
    (∀ p ∈ lex source, p.token.IsString →
      ∃ before line after text, source.toList = before ++ '\x22' :: (line ++ after) ∧
        Text.byteLength before = p.start ∧ '\n' ∉ line ∧ (∀ c ∈ after.head?, c = '\n') ∧
        p.text = '\x22' :: text ∧ Ends line after p.token text ∧
        ('\n' ∈ p.text ↔ OpensBrace line ∧ ∃ far rest, after = far ++ '\x7d' :: rest ∧
          '\x7d' ∉ far ∧ (StringLiteral.scan rest).1 ≠ .unterminated)) ∧
      ∀ line, '\n' ∉ line →
        [¬OpensBrace line,
          ∀ after, (∀ c ∈ after.head?, c = '\n') →
            StringLiteral.scan (line ++ after) = StringLiteral.scan line,
          ∀ after, (∀ c ∈ after.head?, c = '\n') →
            (StringLiteral.scan (line ++ after)).2 = (StringLiteral.scan line).2].TFAE := by
  refine ⟨fun p hp hstring => ?_, fun line hline => StringLiteral.scan_append_tfae hline⟩
  obtain ⟨before, rest, hsource, hstart, htext, htoken⟩ := exists_literal_of_mem_lex hp hstring
  obtain ⟨line, after, rfl, hline, hend⟩ := exists_line rest
  have hends := StringLiteral.scan_ends hline hend
  rw [htoken] at hends
  refine ⟨before, line, after, _, hsource, hstart, hline, hend, htext, hends, ?_⟩
  rw [← hends.lineFeed_mem_iff hline hend, htext]
  exact ⟨fun hmem => (List.mem_cons.mp hmem).resolve_left (by decide), List.mem_cons_of_mem _⟩

/-- A literal that goes over the end of its line, which opens a brace. -/
theorem lex_string_lines_open :
    ∃ p ∈ lex "\"\\u\x7b\n\x7d\"", p.token.IsString ∧ '\n' ∈ p.text ∧
      ∃ before line after, "\"\\u\x7b\n\x7d\"".toList = before ++ '\x22' :: (line ++ after) ∧
        Text.byteLength before = p.start ∧ '\n' ∉ line ∧ OpensBrace line := by
  have hp : (⟨.invalidEscape 1 6, 0, "\"\\u\x7b\n\x7d\"".toList⟩ : Placed) ∈
      lex "\"\\u\x7b\n\x7d\"" :=
    mem_lexFrom_of_scan 0 (by decide)
  obtain ⟨before, line, after, -, hsource, hstart, hline, -, -, -, hiff⟩ :=
    (lex_string_lines _).1 _ hp trivial
  exact ⟨_, hp, trivial, by decide, before, line, after, hsource, hstart, hline,
    (hiff.mp (by decide)).1⟩

/-- A literal whose text has a line feed, although without what follows its line it is not closed
and ends with the line. -/
theorem exists_string_across_lines :
    (∃ p ∈ lex "\"\\u\x7b\n\x7d\"", p.start = 0 ∧ p.token.IsString ∧ '\n' ∈ p.text) ∧
      ∃ p ∈ lex "\"\\u\x7b\n", p.start = 0 ∧ p.token = .unterminated ∧
        p.text = ['\x22', '\\', 'u', '\x7b'] := by
  have hlong : (⟨.invalidEscape 1 6, 0, "\"\\u\x7b\n\x7d\"".toList⟩ : Placed) ∈
      lex "\"\\u\x7b\n\x7d\"" :=
    mem_lexFrom_of_scan 0 (by decide)
  have hshort : (⟨.unterminated, 0, ['\x22', '\\', 'u', '\x7b']⟩ : Placed) ∈
      lex "\"\\u\x7b\n" :=
    mem_lexFrom_of_scan 0 (by decide)
  exact ⟨⟨_, hlong, rfl, trivial, by decide⟩, _, hshort, rfl, rfl, rfl⟩

end Token
end Schemata
