import Schemata.Proofs.Text.Hexadecimal
import Schemata.Proofs.Token.Escape

/-!
# What a string literal stands for

The inside of a literal is a sequence of items: a character that is no quote, no
backslash and no line feed stands for itself, and an escape stands for the
character that it names.  Reading goes from item to item.  It stops at a quote,
at the end of the line, or at a backslash that begins no good escape; from there
on the literal cannot have a value any more, but it goes on, and the place of
this backslash is kept until a quote closes it.

**Results.**
* `escape_shape`: what an escape can look like.
* `exists_denotesAll`: where reading items stops.
* `scan_eq_string_iff`: which literals have a value.
* `scan_denotes`: these, and where the first bad escape of other literals stands.
-/

namespace Schemata
namespace StringLiteral

open Text (HexNumber)

section Grammar

/-- The letters of short escapes, and the characters that these stand for. -/
def letters : List (Char × Char) :=
  [('n', '\n'), ('r', '\r'), ('t', '\t'), ('0', '\x00'), ('\x27', '\x27'), ('\x22', '\x22'),
    ('\\', '\\')]

/-- An item of a literal stands for a character. -/
inductive Denotes : List Char → Char → Prop
  | plain
      {c : Char}
      (hquote : c ≠ '\x22')
      (hbackslash : c ≠ '\\')
      (hline : c ≠ '\n') :
      Denotes [c] c
  | letter
      {a c : Char}
      (hletter : (a, c) ∈ letters) :
      Denotes ['\\', a] c
  | hex
      {digits : List Char}
      {c : Char}
      (hlength : digits.length = 2)
      (hvalue : HexNumber digits c.toNat) :
      Denotes ('\\' :: 'x' :: digits) c
  | braced
      {digits : List Char}
      {c : Char}
      (hne : digits ≠ [])
      (hlength : digits.length ≤ 6)
      (hvalue : HexNumber digits c.toNat) :
      Denotes ('\\' :: 'u' :: '\x7b' :: (digits ++ ['\x7d'])) c

/-- A sequence of items stands for the characters of its items. -/
inductive DenotesAll : List Char → List Char → Prop
  | nil :
      DenotesAll [] []
  | cons
      {item text value : List Char}
      {c : Char}
      (hitem : Denotes item c)
      (hrest : DenotesAll text value) :
      DenotesAll (item ++ text) (c :: value)

end Grammar

section Escapes

variable {cs body : List Char}

theorem bracedScalar?_eq_some_iff
    {digits : List Char}
    {c : Char} :
    bracedScalar? digits = some c ↔
      digits ≠ [] ∧ digits.length ≤ 6 ∧ HexNumber digits c.toNat := by
  have hvalue : (Text.hexDigits? digits).bind Text.scalar? = some c ↔
      HexNumber digits c.toNat := by
    simp only [Option.bind_eq_some_iff, Text.hexDigits?_eq_some_iff, Text.scalar?_eq_some_iff]
    exact ⟨fun ⟨n, hn, heq⟩ => heq ▸ hn, fun h => ⟨_, h, rfl⟩⟩
  unfold bracedScalar?
  split
  next h =>
    simp only [Bool.or_eq_true, List.isEmpty_iff, decide_eq_true_eq] at h
    simp only [reduceCtorEq, false_iff]
    rintro ⟨hne, hlength, -⟩
    rcases h with h | h
    · exact hne h
    · omega
  next h =>
    simp only [Bool.or_eq_true, List.isEmpty_iff, decide_eq_true_eq, not_or, Nat.not_lt] at h
    simp [hvalue, h]

theorem bne_of_notMem
    {d : Char}
    (h : d ∉ body) :
    ∀ c ∈ body, (c != d) = true :=
  fun _ hc => bne_iff_ne.mpr fun heq => h (heq ▸ hc)

theorem bracedEscape_closed
    (hbody : '\x7d' ∉ body)
    (cs : List Char) :
    bracedEscape ('\x7b' :: (body ++ '\x7d' :: cs)) = ⟨bracedScalar? body, body.length + 3⟩ := by
  have hspan : (body ++ '\x7d' :: cs).span (· != '\x7d') = (body, '\x7d' :: cs) := by
    rw [List.span_eq_takeWhile_dropWhile, List.takeWhile_append_of_pos (bne_of_notMem hbody),
      List.dropWhile_append_of_pos (bne_of_notMem hbody)]
    simp
  rw [bracedEscape, hspan]

/-- Without a brace that opens, or without one that closes, the letter stands alone. -/
theorem bracedEscape_bare
    (h : cs.head? ≠ some '\x7b' ∨ '\x7d' ∉ cs) :
    bracedEscape cs = ⟨none, 1⟩ := by
  unfold bracedEscape
  split
  next body =>
    have hbody : '\x7d' ∉ body := fun hmem =>
      h.elim (fun hhead => hhead rfl) fun hclosed => hclosed (List.mem_cons_of_mem _ hmem)
    have hspan : body.span (· != '\x7d') = (body, []) := by
      rw [List.span_eq_takeWhile_dropWhile, List.takeWhile_eq_self_iff.mpr (bne_of_notMem hbody),
        List.dropWhile_eq_nil_iff.mpr (bne_of_notMem hbody)]
    rw [hspan]
  next => rfl

/-- A text either has a first brace that closes, or none. -/
theorem closed_or_bare
    (cs : List Char) :
    (∃ body rest, cs = '\x7b' :: (body ++ '\x7d' :: rest) ∧ '\x7d' ∉ body) ∨
      (cs.head? ≠ some '\x7b' ∨ '\x7d' ∉ cs) := by
  by_cases hmem : '\x7d' ∈ cs
  · cases cs with
    | nil =>
        cases hmem
    | cons c cs =>
        by_cases hc : c = '\x7b'
        · subst hc
          have hmem : '\x7d' ∈ cs := (List.mem_cons.mp hmem).resolve_left (by decide)
          obtain ⟨body, rest, rfl, hbody⟩ := List.eq_append_cons_of_mem hmem
          exact Or.inl ⟨body, rest, rfl, hbody⟩
        · exact Or.inr (Or.inl (by simpa using hc))
  · exact Or.inr (Or.inr hmem)

/-- What the text after a backslash is read as. -/
inductive Shape : List Char → Escape → Prop
  | lineEnd
      {cs : List Char}
      (hend : ∀ c ∈ cs.head?, c = '\n') :
      Shape cs ⟨none, 0⟩
  | letter
      {a c : Char}
      {cs : List Char}
      (hletter : (a, c) ∈ letters) :
      Shape (a :: cs) ⟨some c, 1⟩
  | hex
      {digits cs : List Char}
      {c : Char}
      (hlength : digits.length = 2)
      (hvalue : HexNumber digits c.toNat) :
      Shape ('x' :: (digits ++ cs)) ⟨some c, 3⟩
  | braced
      {body cs : List Char}
      (hbody : '\x7d' ∉ body) :
      Shape ('u' :: '\x7b' :: (body ++ '\x7d' :: cs)) ⟨bracedScalar? body, body.length + 3⟩
  | bare
      {cs : List Char}
      (hbare : cs.head? ≠ some '\x7b' ∨ '\x7d' ∉ cs) :
      Shape ('u' :: cs) ⟨none, 1⟩
  | bad
      {c : Char}
      {cs : List Char}
      (hbraced : c ≠ 'u')
      (hline : c ≠ '\n') :
      Shape (c :: cs) ⟨none, 1⟩

theorem hexEscape_shape
    (cs : List Char) :
    Shape ('x' :: cs) (hexEscape cs) := by
  have hbad : Shape ('x' :: cs) ⟨none, 1⟩ := .bad (by decide) (by decide)
  match cs with
  | [] | [_] =>
      exact hbad
  | a :: b :: cs =>
      rw [hexEscape]
      cases hdigits : Text.hexDigits? [a, b] with
      | none =>
          exact hbad
      | some n =>
          have hn := Text.hexDigits?_eq_some_iff.mp hdigits
          have hlt : n < 256 := hn.lt
          obtain ⟨c, hc⟩ := Text.exists_scalar? (show n < 0xd800 by omega)
          rw [← Text.scalar?_eq_some_iff.mp hc] at hn
          dsimp only
          rw [hc]
          exact .hex rfl hn

theorem escape_shape
    (cs : List Char) :
    Shape cs (escape cs) := by
  cases cs with
  | nil =>
      exact .lineEnd (by simp)
  | cons c cs =>
      rw [escape]
      split_ifs with hn hr ht hzero hself hx hu hline
      · exact .letter (by simp [letters, hn])
      · exact .letter (by simp [letters, hr])
      · exact .letter (by simp [letters, ht])
      · exact .letter (by simp [letters, hzero])
      · exact .letter (by rcases hself with rfl | rfl | rfl <;> simp [letters])
      · rw [hx]
        exact hexEscape_shape cs
      · rw [hu]
        rcases closed_or_bare cs with ⟨body, rest, rfl, hbody⟩ | hbare
        · rw [bracedEscape_closed hbody]
          exact .braced hbody
        · rw [bracedEscape_bare hbare]
          exact .bare hbare
      · exact .lineEnd (by simp [hline])
      · exact .bad hu hline

/-- A good escape is an item. -/
theorem denotes_of_decoded
    {c : Char}
    (h : (escape cs).decoded = some c) :
    (escape cs).length ≤ cs.length ∧ Denotes ('\\' :: cs.take (escape cs).length) c := by
  have hshape := escape_shape cs
  generalize escape cs = e at h hshape
  cases hshape with
  | lineEnd | bare | bad =>
      cases h
  | @letter a _ cs hletter =>
      obtain rfl := Option.some.inj h
      exact ⟨Nat.le_add_left 1 cs.length, .letter hletter⟩
  | @hex digits cs _ hlength hvalue =>
      obtain rfl := Option.some.inj h
      have htake : ('x' :: (digits ++ cs)).take 3 = 'x' :: digits := by
        rw [List.take_succ_cons, List.take_left' hlength]
      refine ⟨?_, ?_⟩
      · simp [hlength]
      · rw [htake]
        exact .hex hlength hvalue
  | @braced body cs hbody =>
      obtain ⟨hne, hlength, hvalue⟩ := bracedScalar?_eq_some_iff.mp h
      have htake : ('u' :: '\x7b' :: (body ++ '\x7d' :: cs)).take (body.length + 3) =
          'u' :: '\x7b' :: (body ++ ['\x7d']) := by
        rw [List.take_succ_cons, List.take_succ_cons, List.take_length_add_append,
          List.take_succ_cons, List.take_zero]
      refine ⟨?_, ?_⟩
      · simp only [List.length_cons, List.length_append]
        omega
      · rw [htake]
        exact .braced hne hlength hvalue

/-- An item that begins with a backslash is read as a good escape. -/
theorem escape_of_denotes
    {item : List Char}
    {c : Char}
    (h : Denotes ('\\' :: item) c)
    (cs : List Char) :
    escape (item ++ cs) = ⟨some c, item.length⟩ := by
  generalize hwhole : '\\' :: item = whole at h
  cases h with
  | plain _ hbackslash _ =>
      exact absurd (List.cons.inj hwhole).1.symm hbackslash
  | letter hletter =>
      obtain rfl := (List.cons.inj hwhole).2
      simp only [letters, List.mem_cons, Prod.mk.injEq, List.not_mem_nil, or_false] at hletter
      rcases hletter with ⟨rfl, rfl⟩ | ⟨rfl, rfl⟩ | ⟨rfl, rfl⟩ | ⟨rfl, rfl⟩ | ⟨rfl, rfl⟩ |
        ⟨rfl, rfl⟩ | ⟨rfl, rfl⟩ <;> rfl
  | @hex digits _ hlength hvalue =>
      obtain rfl := (List.cons.inj hwhole).2
      match digits, hlength with
      | [a, b], _ =>
          have hescape : escape ('x' :: a :: b :: cs) = hexEscape (a :: b :: cs) := rfl
          have hdigits := Text.hexDigits?_eq_some_iff.mpr hvalue
          have hscalar := Text.scalar?_eq_some_iff.mpr (rfl : c.toNat = c.toNat)
          simp only [List.cons_append, List.nil_append, hescape, hexEscape, hdigits, hscalar]
          rfl
  | @braced digits _ hne hlength hvalue =>
      obtain rfl := (List.cons.inj hwhole).2
      have hbody : '\x7d' ∉ digits := hvalue.notMem (by decide)
      have hescape : escape ('u' :: '\x7b' :: (digits ++ '\x7d' :: cs)) =
          bracedEscape ('\x7b' :: (digits ++ '\x7d' :: cs)) := rfl
      have hscalar := bracedScalar?_eq_some_iff.mpr ⟨hne, hlength, hvalue⟩
      simp only [List.cons_append, List.append_assoc, List.nil_append, hescape,
        bracedEscape_closed hbody, hscalar, List.length_cons, List.length_append,
        List.length_nil]

end Escapes

section Reading

/-- What has been read after a text that stands for some characters. -/
def Progress.after
    (p : Progress)
    (text value : List Char) :
    Progress :=
  { p with
    bytes := p.bytes + Text.byteLength text
    count := p.count + text.length
    value := value.reverse ++ p.value }

variable {p q : Progress}
variable {cs item text value : List Char}
variable {c : Char}

theorem Progress.after_after
    (p : Progress)
    (text value text' value' : List Char) :
    (p.after text value).after text' value' = p.after (text ++ text') (value ++ value') := by
  simp [Progress.after, Text.byteLength_append, Nat.add_assoc]

/-- Characters that belong to an escape are passed. -/
theorem readBody?_skip
    (p : Progress)
    (text cs : List Char) :
    readBody? text.length p (text ++ cs) = readBody? 0 (p.after text []) cs := by
  induction text generalizing p with
  | nil =>
      rfl
  | cons c text ih =>
      have hpass : p.pass c = p.after [c] [] := rfl
      rw [List.length_cons, List.cons_append, readBody?, ih, hpass, Progress.after_after]
      rfl

theorem readBody?_plain
    (p : Progress)
    (hquote : c ≠ '\x22')
    (hbackslash : c ≠ '\\')
    (hline : c ≠ '\n')
    (cs : List Char) :
    readBody? 0 p (c :: cs) = readBody? 0 (p.after [c] [c]) cs := by
  rw [readBody?, if_neg hquote, if_neg hline, if_neg hbackslash]
  rfl

/-- At a backslash, the characters of the escape are passed, good or bad. -/
theorem readBody?_backslash
    (p : Progress)
    (cs : List Char) :
    readBody? 0 p ('\\' :: cs) =
      readBody? (escape cs).length ((p.take (escape cs) cs).pass '\\') cs := by
  rw [readBody?, if_neg (by decide), if_neg (by decide), if_pos rfl]

theorem readBody?_denotes
    (p : Progress)
    (h : Denotes item c)
    (cs : List Char) :
    readBody? 0 p (item ++ cs) = readBody? 0 (p.after item [c]) cs := by
  have hescape : ∀ rest, item = '\\' :: rest →
      readBody? 0 p (item ++ cs) = readBody? 0 (p.after item [c]) cs := by
    rintro rest rfl
    have htake : p.take ⟨some c, rest.length⟩ (rest ++ cs) = p.push c := rfl
    have hpass : (p.push c).pass '\\' = p.after ['\\'] [c] := rfl
    rw [List.cons_append, readBody?_backslash, escape_of_denotes h, htake, readBody?_skip, hpass,
      Progress.after_after]
    rfl
  cases h with
  | plain hquote hbackslash hline => exact readBody?_plain p hquote hbackslash hline cs
  | letter | hex | braced => exact hescape _ rfl

theorem readBody?_denotesAll
    (p : Progress)
    (h : DenotesAll text value)
    (cs : List Char) :
    readBody? 0 p (text ++ cs) = readBody? 0 (p.after text value) cs := by
  induction h generalizing p with
  | nil =>
      rfl
  | cons hitem _ ih =>
      rw [List.append_assoc, readBody?_denotes p hitem, ih, Progress.after_after]
      rfl

/-- A text at which no item begins. -/
inductive Stop : List Char → Prop
  | quote
      (cs : List Char) :
      Stop ('\x22' :: cs)
  | lineEnd
      {cs : List Char}
      (hend : ∀ c ∈ cs.head?, c = '\n') :
      Stop cs
  | badEscape
      {cs : List Char}
      (hbad : (escape cs).decoded = none) :
      Stop ('\\' :: cs)

/-- Items are read until none begins. -/
theorem exists_denotesAll
    (cs : List Char) :
    ∃ text value rest, cs = text ++ rest ∧ DenotesAll text value ∧ Stop rest := by
  induction hn : cs.length using Nat.strong_induction_on generalizing cs with
  | _ n ih =>
      have hmore : ∀ item c rest, cs = item ++ rest → Denotes item c →
          rest.length < cs.length →
          ∃ text value rest, cs = text ++ rest ∧ DenotesAll text value ∧ Stop rest := by
        rintro item c rest hcs hitem hlt
        obtain ⟨text, value, rest, rfl, hall, hstop⟩ := ih rest.length (hn ▸ hlt) rest rfl
        exact ⟨item ++ text, c :: value, rest, by rw [hcs, List.append_assoc], .cons hitem hall,
          hstop⟩
      cases cs with
      | nil =>
          exact ⟨[], [], [], rfl, .nil, .lineEnd (by simp)⟩
      | cons c cs =>
          by_cases hquote : c = '\x22'
          · subst hquote
            exact ⟨[], [], _, rfl, .nil, .quote cs⟩
          · by_cases hline : c = '\n'
            · exact ⟨[], [], _, rfl, .nil, .lineEnd (by simp [hline])⟩
            · by_cases hbackslash : c = '\\'
              · subst hbackslash
                cases hdecoded : (escape cs).decoded with
                | none =>
                    exact ⟨[], [], _, rfl, .nil, .badEscape hdecoded⟩
                | some d =>
                    obtain ⟨-, hitem⟩ := denotes_of_decoded hdecoded
                    refine hmore _ d (cs.drop (escape cs).length) ?_ hitem ?_
                    · rw [List.cons_append, List.take_append_drop]
                    · rw [List.length_drop, List.length_cons]
                      omega
              · exact hmore [c] c cs rfl (.plain hquote hbackslash hline) (Nat.lt_succ_self _)

/-- A bad escape that was read is kept to the end. -/
theorem invalid_of_readBody?
    {skip : Nat}
    {range : Nat × Nat}
    (hinvalid : p.invalid = some range)
    (h : readBody? skip p cs = some q) :
    q.invalid = some range := by
  fun_induction readBody? skip p cs with
  | case1 =>
      cases h
  | case2 skip p c cs ih =>
      exact ih hinvalid h
  | case3 p cs =>
      cases h
      exact hinvalid
  | case4 =>
      cases h
  | case5 p cs hquote hline ih =>
      refine ih ?_ h
      unfold Progress.take
      cases (escape cs).decoded with
      | some c => exact hinvalid
      | none => simp only [hinvalid, Progress.pass]
  | case6 p c cs hquote hline hescape ih =>
      exact ih hinvalid h

end Reading

section Scanning

variable {cs good value rest : List Char}

theorem readBody?_lineEnd
    (p : Progress)
    (hend : ∀ c ∈ rest.head?, c = '\n') :
    readBody? 0 p rest = none := by
  cases rest with
  | nil =>
      rfl
  | cons c rest =>
      obtain rfl := hend c rfl
      rfl

/-- A literal without bad escapes has the value of its items. -/
theorem scan_quote
    (h : DenotesAll good value)
    (after : List Char) :
    scan (good ++ '\x22' :: after) =
      (.terminal (.string (String.ofList value)), good.length + 1) := by
  have hread : readBody? 0 ⟨0, 0, [], none⟩ (good ++ '\x22' :: after) =
      some ((Progress.after ⟨0, 0, [], none⟩ good value).pass '\x22') := by
    rw [readBody?_denotesAll _ h]
    rfl
  simp [scan, hread, Progress.token, Progress.pass, Progress.after]

/-- Without a closing quote on the line there is no value. -/
theorem scan_lineEnd
    (h : DenotesAll good value)
    (hend : ∀ c ∈ rest.head?, c = '\n') :
    (scan (good ++ rest)).1 = .unterminated := by
  rw [scan, readBody?_denotesAll _ h, readBody?_lineEnd _ hend]

/-- Behind a bad escape a literal is invalid, where it is closed at all. -/
theorem scan_badEscape
    (h : DenotesAll good value)
    (hbad : (escape rest).decoded = none) :
    (scan (good ++ '\\' :: rest)).1 = .unterminated ∨
      ∃ stop, (scan (good ++ '\\' :: rest)).1 =
          .invalidEscape (Text.byteLength good + 1) stop ∧
        Text.byteLength good + 1 < stop := by
  rw [scan, readBody?_denotesAll _ h, readBody?_backslash]
  have hinvalid : ((Progress.take (Progress.after ⟨0, 0, [], none⟩ good value) (escape rest)
      rest).pass '\\').invalid = some (Text.byteLength good,
        Text.byteLength good + 1 + Text.byteLength (rest.take (escape rest).length)) := by
    simp [Progress.take, Progress.after, Progress.pass, hbad]
  split
  next p hread =>
    right
    have hkept := invalid_of_readBody? hinvalid hread
    refine ⟨_, by rw [Progress.token, hkept], by omega⟩
  next => exact Or.inl rfl

/-- No item begins at a bad escape. -/
theorem not_prefix_of_badEscape
    (hbad : (escape rest).decoded = none)
    {item : List Char}
    {c : Char}
    (hitem : Denotes item c) :
    ¬item <+: '\\' :: rest := by
  intro hprefix
  have hne : item ≠ [] := by
    cases hitem <;> exact List.cons_ne_nil _ _
  obtain ⟨d, tail, rfl⟩ := List.exists_cons_of_ne_nil hne
  obtain ⟨rfl, more, rfl⟩ := List.cons_prefix_cons.mp hprefix
  rw [escape_of_denotes hitem] at hbad
  cases hbad

/-- Beginnings of one text with as many bytes are the same. -/
theorem eq_of_byteLength_eq
    {as bs as' bs' : List Char}
    (h : as ++ as' = bs ++ bs')
    (hlength : Text.byteLength as = Text.byteLength bs) :
    as = bs := by
  have hshorter : ∀ {as bs : List Char}, as <+: bs →
      Text.byteLength as = Text.byteLength bs → as = bs := by
    rintro as _ ⟨more, rfl⟩ hlength
    rw [Text.byteLength_append] at hlength
    by_cases hmore : more = []
    · rw [hmore, List.append_nil]
    · have hpos := Text.byteLength_pos hmore
      omega
  rcases List.prefix_or_prefix_of_prefix (List.prefix_append as as')
    (h ▸ List.prefix_append bs bs') with hprefix | hprefix
  · exact hshorter hprefix hlength
  · exact (hshorter hprefix hlength.symm).symm

/-- A literal is a string, or has no end on its line, or its first bad escape is reported. -/
theorem scan_cases
    (cs : List Char) :
    (∃ body value after, cs = body ++ '\x22' :: after ∧ DenotesAll body value ∧
      scan cs = (.terminal (.string (String.ofList value)), body.length + 1)) ∨
    (scan cs).1 = .unterminated ∨
    ∃ good value bad stop, cs = good ++ '\\' :: bad ∧ DenotesAll good value ∧
      (escape bad).decoded = none ∧
      (scan cs).1 = .invalidEscape (Text.byteLength good + 1) stop ∧
      Text.byteLength good + 1 < stop := by
  obtain ⟨good, value, rest, rfl, hgood, hstop⟩ := exists_denotesAll cs
  cases hstop with
  | quote after =>
      exact Or.inl ⟨good, value, after, rfl, hgood, scan_quote hgood after⟩
  | lineEnd hend =>
      exact Or.inr (Or.inl (scan_lineEnd hgood hend))
  | @badEscape bad hbad =>
      rcases scan_badEscape hgood hbad with hnone | ⟨stop, hinvalid, hlt⟩
      · exact Or.inr (Or.inl hnone)
      · exact Or.inr (Or.inr ⟨good, value, bad, stop, rfl, hgood, hbad, hinvalid, hlt⟩)

theorem scan_eq_string_iff
    {value : String}
    {n : Nat} :
    scan cs = (.terminal (.string value), n) ↔
      ∃ body after, cs = body ++ '\x22' :: after ∧ n = body.length + 1 ∧
        DenotesAll body value.toList := by
  constructor
  · intro hscan
    rcases scan_cases cs with ⟨body, chars, after, rfl, hbody, hstring⟩ | hnone |
      ⟨_, _, _, _, -, -, -, hinvalid, -⟩
    · rw [hstring, Prod.mk.injEq] at hscan
      obtain ⟨htoken, rfl⟩ := hscan
      obtain rfl := Terminal.string.inj (Token.terminal.inj htoken)
      exact ⟨body, after, rfl, rfl, by rwa [String.toList_ofList]⟩
    · rw [hscan] at hnone
      cases hnone
    · rw [hscan] at hinvalid
      cases hinvalid
  · rintro ⟨body, after, rfl, rfl, hbody⟩
    rw [scan_quote hbody, String.ofList_toList]

/-- The range that is reported begins at the first backslash at which no item begins. -/
theorem exists_badEscape
    {start stop n : Nat}
    (hscan : scan cs = (.invalidEscape start stop, n)) :
    ∃ good value bad, cs = good ++ '\\' :: bad ∧ DenotesAll good value ∧
      (∀ item c, Denotes item c → ¬item <+: '\\' :: bad) ∧
      start = Text.byteLength ('\x22' :: good) ∧
      ∃ text after, '\x22' :: cs.take n = '\x22' :: good ++ text ++ after ∧ text ≠ [] ∧
        stop = start + Text.byteLength text := by
  rcases scan_cases cs with ⟨_, _, _, -, -, hstring⟩ | hnone |
    ⟨good, value, bad, stop', rfl, hgood, hbad, hinvalid, hlt⟩
  · rw [hscan] at hstring
    cases hstring
  · rw [hscan] at hnone
    cases hnone
  · rw [hscan] at hinvalid
    obtain ⟨rfl, rfl⟩ := Token.invalidEscape.inj hinvalid
    have hstart : Text.byteLength good + 1 = Text.byteLength ('\x22' :: good) := by
      rw [Text.byteLength, Nat.add_comm]
      rfl
    obtain ⟨before, text, after, hsplit, hbefore, hafter⟩ := scan_invalidEscape hscan
    have hwhole : before ++ (text ++ after ++ (good ++ '\\' :: bad).drop n) =
        '\x22' :: good ++ '\\' :: bad := by
      rw [← List.append_assoc, ← List.append_assoc, ← hsplit, List.cons_append,
        List.take_append_drop, List.cons_append]
    obtain rfl := eq_of_byteLength_eq hwhole (hbefore.symm.trans hstart)
    refine ⟨good, value, bad, rfl, hgood, fun item c => not_prefix_of_badEscape hbad, hstart,
      text, after, hsplit, ?_, hafter⟩
    rintro rfl
    exact absurd hafter (Nat.ne_of_gt hlt)

end Scanning

/-- What a literal stands for.

* A text is read as a string exactly when it has a quote such that all before this quote is a
  sequence of items.  The literal then ends behind the quote, and its value is what the items stand
  for.
* Where a bad escape is reported, the literal begins with a sequence of items and a backslash at
  which no item begins.  The range that is reported begins at the backslash.  It is that of some
  characters of the literal, at least one. -/
theorem scan_denotes
    (cs : List Char) :
    (∀ value n, scan cs = (.terminal (.string value), n) ↔
      ∃ body after, cs = body ++ '\x22' :: after ∧ n = body.length + 1 ∧
        DenotesAll body value.toList) ∧
      ∀ start stop n, scan cs = (.invalidEscape start stop, n) →
        ∃ good value bad, cs = good ++ '\\' :: bad ∧ DenotesAll good value ∧
          (∀ item c, Denotes item c → ¬item <+: '\\' :: bad) ∧
          start = Text.byteLength ('\x22' :: good) ∧
          ∃ text after, '\x22' :: cs.take n = '\x22' :: good ++ text ++ after ∧ text ≠ [] ∧
            stop = start + Text.byteLength text :=
  ⟨fun _ _ => scan_eq_string_iff, fun _ _ _ => exists_badEscape⟩

/-- A literal with two escapes, and one with a bad escape. -/
theorem scan_denotes_escapes :
    scan ['a', '\\', 'x', '4', '1', '\\', 't', '\x22', ';'] =
        (.terminal (.string "aA\t"), 8) ∧
      DenotesAll ['a', '\\', 'x', '4', '1', '\\', 't'] ['a', 'A', '\t'] ∧
      scan ['a', '\\', 'q', '\x22'] = (.invalidEscape 2 4, 4) ∧
      ∃ good bad, ['a', '\\', 'q', '\x22'] = good ++ '\\' :: bad ∧
        2 = Text.byteLength ('\x22' :: good) := by
  have hvalue : scan ['a', '\\', 'x', '4', '1', '\\', 't', '\x22', ';'] =
      (.terminal (.string "aA\t"), 8) := by
    decide
  have hbad : scan ['a', '\\', 'q', '\x22'] = (.invalidEscape 2 4, 4) := by
    decide
  obtain ⟨body, after, hsplit, hlength, hbody⟩ := ((scan_denotes _).1 _ _).mp hvalue
  obtain ⟨good, -, bad, hgood, -, -, hstart, -⟩ := (scan_denotes _).2 _ _ _ hbad
  have hseven : ['a', '\\', 'x', '4', '1', '\\', 't'] = body :=
    List.append_inj_left hsplit (Nat.succ.inj hlength)
  rw [← hseven] at hbody
  exact ⟨hvalue, hbody, hbad, good, bad, hgood, hstart⟩

end StringLiteral
end Schemata
