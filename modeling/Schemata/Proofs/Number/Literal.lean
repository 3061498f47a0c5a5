import Schemata.Proofs.Codec.Key
import Schemata.Proofs.Token.Tiling

/-!
# The grammar of number literals

A literal is `-?digits(.digits)?([eE][+-]?digits)?`.  The reader cuts it at the
first mark of an exponent and then at the first point, and looks at the parts
afterwards; since digits are no marks, it cuts a literal where its parts meet, and
what it cuts into digits is a literal.  The rule by which the lexer takes a number is
wider, so that it takes every literal whole.

**Results.**
* `wellFormed_iff`: the parts of a text are runs of digits when it is a literal.
* `lex_of_mem_grammar`: a literal is one token.
* `parse_grammar`: what is read from a text, by the grammar.
-/

namespace Schemata
namespace Number

open scoped Computability
open Token (oneOf literal)

section Grammar

/-- One digit or more. -/
def digits : Language Char :=
  oneOf Text.isDigit * (oneOf Text.isDigit)∗

/-- A point and digits. -/
def fraction : Language Char :=
  literal "." * digits

/-- A mark, perhaps a sign, and digits. -/
def exponent : Language Char :=
  oneOf (fun c => c == 'e' || c == 'E') * ((1 + oneOf fun c => c == '+' || c == '-') * digits)

/-- A literal without fraction and exponent. -/
def wholeNumber : Language Char :=
  (1 + literal "-") * digits

/-- The literals. -/
def grammar : Language Char :=
  wholeNumber * ((1 + fraction) * (1 + exponent))

variable {word : List Char}

theorem mem_digits :
    word ∈ digits ↔ Text.isDigits word = true := by
  simp only [digits, Token.mem_oneOf_mul, Token.mem_star_oneOf]
  constructor
  · rintro ⟨c, rest, rfl, hc, hrest⟩
    simpa [Text.isDigits, hc] using hrest
  · intro h
    cases word with
    | nil =>
        cases h
    | cons c rest =>
        simp only [Text.isDigits, List.isEmpty_cons, Bool.not_false, Bool.true_and,
          List.all_eq_true] at h
        exact ⟨c, rest, rfl, List.forall_mem_cons.mp h⟩

theorem mem_fraction :
    word ∈ fraction ↔ ∃ places, word = '.' :: places ∧ Text.isDigits places = true := by
  simp only [fraction, Language.mem_mul, Token.mem_literal, mem_digits]
  constructor
  · rintro ⟨_, rfl, places, hplaces, rfl⟩
    exact ⟨places, rfl, hplaces⟩
  · rintro ⟨places, rfl, hplaces⟩
    exact ⟨['.'], rfl, places, hplaces, rfl⟩

/-- A run of digits holds nothing else. -/
theorem notMem_of_isDigits
    (h : Text.isDigits word = true)
    {c : Char}
    (hc : Text.isDigit c = false) :
    c ∉ word := by
  intro hmem
  simp only [Text.isDigits, Bool.and_eq_true, List.all_eq_true] at h
  have hdigit := h.2 c hmem
  rw [hc] at hdigit
  cases hdigit

theorem exponentDigits_of_isDigits
    (h : Text.isDigits word = true) :
    exponentDigits word = word := by
  unfold exponentDigits
  split
  · exact absurd List.mem_cons_self (notMem_of_isDigits h (by decide))
  · exact absurd List.mem_cons_self (notMem_of_isDigits h (by decide))
  · rfl

theorem mem_exponent :
    word ∈ exponent ↔ ∃ mark rest, word = mark :: rest ∧ (mark == 'e' || mark == 'E') = true ∧
      Text.isDigits (exponentDigits rest) = true := by
  rw [exponent, Token.mem_oneOf_mul]
  simp only [Language.mem_mul, Token.mem_one_add, Token.mem_oneOf, mem_digits]
  constructor
  · rintro ⟨mark, _, rfl, hmark, sign, hsign, ds, hds, rfl⟩
    refine ⟨mark, _, rfl, hmark, ?_⟩
    rcases hsign with rfl | ⟨c, hc, rfl⟩
    · rwa [List.nil_append, exponentDigits_of_isDigits hds]
    · rw [Bool.or_eq_true, beq_iff_eq, beq_iff_eq] at hc
      rcases hc with rfl | rfl <;> exact hds
  · rintro ⟨mark, rest, rfl, hmark, hrest⟩
    refine ⟨mark, rest, rfl, hmark, ?_⟩
    unfold exponentDigits at hrest
    split at hrest
    · exact ⟨['+'], .inr ⟨'+', rfl, rfl⟩, _, hrest, rfl⟩
    · exact ⟨['-'], .inr ⟨'-', rfl, rfl⟩, _, hrest, rfl⟩
    · exact ⟨[], .inl rfl, _, hrest, rfl⟩

theorem mem_wholeNumber :
    word ∈ wholeNumber ↔ ∃ sign whole, word = sign ++ whole ∧ (sign = [] ∨ sign = ['-']) ∧
      Text.isDigits whole = true := by
  simp only [wholeNumber, Language.mem_mul, Token.mem_one_add, Token.mem_literal, mem_digits]
  constructor
  · rintro ⟨sign, hsign, whole, hwhole, rfl⟩
    exact ⟨sign, whole, rfl, hsign, hwhole⟩
  · rintro ⟨sign, whole, rfl, hsign, hwhole⟩
    exact ⟨sign, hsign, whole, hwhole, rfl⟩

/-- A literal is an optional minus, digits, an optional fraction and an optional exponent. -/
theorem mem_grammar :
    word ∈ grammar ↔ ∃ sign whole frac exp, word = sign ++ (whole ++ (frac ++ exp)) ∧
      (sign = [] ∨ sign = ['-']) ∧ Text.isDigits whole = true ∧
      (frac = [] ∨ frac ∈ fraction) ∧ (exp = [] ∨ exp ∈ exponent) := by
  rw [grammar, Language.mem_mul]
  simp only [Language.mem_mul, Token.mem_one_add, mem_wholeNumber]
  constructor
  · rintro ⟨_, ⟨sign, whole, rfl, hsign, hwhole⟩, _, ⟨frac, hfrac, exp, hexp, rfl⟩, rfl⟩
    exact ⟨sign, whole, frac, exp, List.append_assoc .., hsign, hwhole, hfrac, hexp⟩
  · rintro ⟨sign, whole, frac, exp, rfl, hsign, hwhole, hfrac, hexp⟩
    exact ⟨_, ⟨sign, whole, rfl, hsign, hwhole⟩, _, ⟨frac, hfrac, exp, hexp, rfl⟩,
      List.append_assoc ..⟩

end Grammar

section Cutting

variable {mark : Char → Bool}

/-- A text is cut where its first mark is. -/
theorem cut_append
    {before rest : List Char}
    (hbefore : ∀ c ∈ before, mark c = false)
    (hrest : ∀ c ∈ rest.head?, mark c = true) :
    cut mark (before ++ rest) = (before, rest.tail?) := by
  have hpass : ∀ c ∈ before, (!mark c) = true := by
    simpa using hbefore
  rw [cut, List.span_eq_takeWhile_dropWhile, List.takeWhile_append_of_pos hpass,
    List.dropWhile_append_of_pos hpass]
  cases rest with
  | nil =>
      simp
  | cons c rest =>
      simp [hrest c rfl]

/-- Every text is cut at its first mark, or has none. -/
theorem exists_append_cut
    (mark : Char → Bool)
    (cs : List Char) :
    ∃ before rest, cs = before ++ rest ∧ (∀ c ∈ rest.head?, mark c = true) ∧
      cut mark cs = (before, rest.tail?) := by
  have hbefore : ∀ c ∈ cs.takeWhile (!mark ·), mark c = false := by
    intro c hc
    simpa using List.mem_takeWhile_imp hc
  have hrest : ∀ c ∈ (cs.dropWhile (!mark ·)).head?, mark c = true := by
    intro c hc
    have hstop := List.head?_dropWhile_not (!mark ·) cs
    rw [Option.mem_def.mp hc] at hstop
    simpa using hstop
  refine ⟨_, _, List.takeWhile_append_dropWhile.symm, hrest, ?_⟩
  have hcut := cut_append hbefore hrest
  rwa [List.takeWhile_append_dropWhile] at hcut

end Cutting

section Parts

/-- The parts of a text behind its sign. -/
def Parts.ofUnsigned
    (negative : Bool)
    (cs : List Char) :
    Parts :=
  let (mantissa, exponent) := cut (fun c => c == 'e' || c == 'E') cs
  let (whole, fraction) := cut (· == '.') mantissa
  { negative, whole, fraction, exponent }

theorem Parts.ofText_minus
    (cs : List Char) :
    Parts.ofText ('-' :: cs) = Parts.ofUnsigned true cs :=
  rfl

theorem Parts.ofText_of_head?
    {cs : List Char}
    (h : cs.head? ≠ some '-') :
    Parts.ofText cs = Parts.ofUnsigned false cs := by
  unfold Parts.ofText
  split
  rename_i negative unsigned heq
  split at heq
  · exact absurd rfl h
  · cases heq
    rfl

variable {sign whole frac exp : List Char}

theorem notMem_of_fraction
    (h : frac = [] ∨ frac ∈ fraction)
    {c : Char}
    (hc : Text.isDigit c = false)
    (hdot : c ≠ '.') :
    c ∉ frac := by
  rcases h with rfl | h
  · exact List.not_mem_nil
  · obtain ⟨places, rfl, hplaces⟩ := mem_fraction.mp h
    exact fun hmem => (List.mem_cons.mp hmem).elim hdot (notMem_of_isDigits hplaces hc)

/-- A literal without a sign is cut where its parts meet. -/
theorem ofUnsigned_append
    (negative : Bool)
    (hwhole : Text.isDigits whole = true)
    (hfrac : frac = [] ∨ frac ∈ fraction)
    (hexp : exp = [] ∨ exp ∈ exponent) :
    Parts.ofUnsigned negative (whole ++ (frac ++ exp)) =
      ⟨negative, whole, frac.tail?, exp.tail?⟩ := by
  have hmantissa : cut (fun c => c == 'e' || c == 'E') (whole ++ frac ++ exp) =
      (whole ++ frac, exp.tail?) := by
    refine cut_append (fun c hc => ?_) (fun c hc => ?_)
    · have hnot : ∀ m, Text.isDigit m = false → m ≠ '.' → c ≠ m := by
        rintro m hm hdot rfl
        exact (List.mem_append.mp hc).elim (notMem_of_isDigits hwhole hm)
          (notMem_of_fraction hfrac hm hdot)
      simp [hnot 'e' (by decide) (by decide), hnot 'E' (by decide) (by decide)]
    · rcases hexp with rfl | hexp
      · cases hc
      · obtain ⟨mark, rest, rfl, hmark, -⟩ := mem_exponent.mp hexp
        cases hc
        exact hmark
  have hparts : cut (· == '.') (whole ++ frac) = (whole, frac.tail?) := by
    refine cut_append (fun c hc => ?_) (fun c hc => ?_)
    · refine beq_eq_false_iff_ne.mpr ?_
      rintro rfl
      exact notMem_of_isDigits hwhole (by decide) hc
    · rcases hfrac with rfl | hfrac
      · cases hc
      · obtain ⟨places, rfl, -⟩ := mem_fraction.mp hfrac
        cases hc
        rfl
  rw [← List.append_assoc, Parts.ofUnsigned, hmantissa]
  dsimp only
  rw [hparts]

/-- A literal is cut where its parts meet. -/
theorem ofText_append
    (hsign : sign = [] ∨ sign = ['-'])
    (hwhole : Text.isDigits whole = true)
    (hfrac : frac = [] ∨ frac ∈ fraction)
    (hexp : exp = [] ∨ exp ∈ exponent) :
    Parts.ofText (sign ++ (whole ++ (frac ++ exp))) =
      ⟨sign == ['-'], whole, frac.tail?, exp.tail?⟩ := by
  rcases hsign with rfl | rfl
  · have hhead : (whole ++ (frac ++ exp)).head? ≠ some '-' := by
      cases whole with
      | nil =>
          cases hwhole
      | cons c whole =>
          intro hc
          cases hc
          exact notMem_of_isDigits hwhole (by decide) List.mem_cons_self
    rw [List.nil_append, Parts.ofText_of_head? hhead, ofUnsigned_append _ hwhole hfrac hexp]
    rfl
  · rw [List.singleton_append, Parts.ofText_minus, ofUnsigned_append _ hwhole hfrac hexp]
    rfl

/-- Every text is cut into parts that begin with their marks. -/
theorem exists_append_ofText
    (cs : List Char) :
    ∃ sign whole frac exp, cs = sign ++ (whole ++ (frac ++ exp)) ∧ (sign = [] ∨ sign = ['-']) ∧
      (∀ c ∈ frac.head?, c = '.') ∧ (∀ c ∈ exp.head?, (c == 'e' || c == 'E') = true) ∧
        Parts.ofText cs = ⟨sign == ['-'], whole, frac.tail?, exp.tail?⟩ := by
  have hunsigned : ∃ sign rest, cs = sign ++ rest ∧ (sign = [] ∨ sign = ['-']) ∧
      Parts.ofText cs = Parts.ofUnsigned (sign == ['-']) rest := by
    by_cases hminus : cs.head? = some '-'
    · obtain ⟨rest, rfl⟩ := List.head?_eq_some_iff.mp hminus
      exact ⟨['-'], rest, rfl, .inr rfl, rfl⟩
    · exact ⟨[], cs, rfl, .inl rfl, Parts.ofText_of_head? hminus⟩
  obtain ⟨sign, rest, rfl, hsign, htext⟩ := hunsigned
  obtain ⟨mantissa, exp, rfl, hexp, hcut⟩ :=
    exists_append_cut (fun c => c == 'e' || c == 'E') rest
  obtain ⟨whole, frac, rfl, hfrac, hcut'⟩ := exists_append_cut (· == '.') mantissa
  refine ⟨sign, whole, frac, exp, by rw [List.append_assoc], hsign,
    fun c hc => beq_iff_eq.mp (hfrac c hc), hexp, ?_⟩
  rw [htext, Parts.ofUnsigned, hcut]
  dsimp only
  rw [hcut']

/-- The parts of a text are runs of digits, behind their signs, when the text is a literal. -/
theorem wellFormed_iff
    (cs : List Char) :
    (Parts.ofText cs).wellFormed = true ↔ cs ∈ grammar := by
  constructor
  · intro h
    obtain ⟨sign, whole, frac, exp, rfl, hsign, hfrac, hexp, htext⟩ := exists_append_ofText cs
    simp only [htext, Parts.wellFormed, Bool.and_eq_true] at h
    obtain ⟨⟨hwhole, hplaces⟩, hdigits⟩ := h
    refine mem_grammar.mpr ⟨sign, whole, frac, exp, rfl, hsign, hwhole, ?_, ?_⟩
    · cases frac with
      | nil =>
          exact .inl rfl
      | cons c places =>
          obtain rfl := hfrac c rfl
          exact .inr (mem_fraction.mpr ⟨places, rfl, hplaces⟩)
    · cases exp with
      | nil =>
          exact .inl rfl
      | cons mark rest =>
          exact .inr (mem_exponent.mpr ⟨mark, rest, rfl, hexp mark rfl, hdigits⟩)
  · intro h
    obtain ⟨sign, whole, frac, exp, rfl, hsign, hwhole, hfrac, hexp⟩ := mem_grammar.mp h
    rw [ofText_append hsign hwhole hfrac hexp]
    simp only [Parts.wellFormed, Bool.and_eq_true]
    refine ⟨⟨hwhole, ?_⟩, ?_⟩
    · rcases hfrac with rfl | hfrac
      · rfl
      · obtain ⟨places, rfl, hplaces⟩ := mem_fraction.mp hfrac
        exact hplaces
    · rcases hexp with rfl | hexp
      · rfl
      · obtain ⟨mark, rest, rfl, -, hdigits⟩ := mem_exponent.mp hexp
        exact hdigits

end Parts

section Reading

variable {text : String}

theorem parse_eq_malformed_iff :
    parse text = .error (.malformed text) ↔ text.toList ∉ grammar := by
  rw [← wellFormed_iff]
  unfold parse
  dsimp only
  split
  · rename_i h
    refine iff_of_false (fun heq => ?_) (fun hnot => hnot h)
    split at heq
    · cases heq
    · cases heq
  · rename_i h
    exact iff_of_true rfl h

/-- A literal is read as the number that its parts denote, if that is in range. -/
theorem parse_of_append
    {sign whole frac exp : List Char}
    (htext : text.toList = sign ++ (whole ++ (frac ++ exp)))
    (hsign : sign = [] ∨ sign = ['-'])
    (hwhole : Text.isDigits whole = true)
    (hfrac : frac = [] ∨ frac ∈ fraction)
    (hexp : exp = [] ∨ exp ∈ exponent) :
    parse text = (Parts.value? ⟨sign == ['-'], whole, frac.tail?, exp.tail?⟩).elim
      (.error (.outOfRange text)) .ok := by
  have hgrammar : text.toList ∈ grammar :=
    mem_grammar.mpr ⟨sign, whole, frac, exp, htext, hsign, hwhole, hfrac, hexp⟩
  have hparts := ofText_append hsign hwhole hfrac hexp
  rw [← htext] at hparts
  have hwellFormed := (wellFormed_iff text.toList).mpr hgrammar
  unfold parse
  rw [if_pos hwellFormed, hparts]
  cases Parts.value? ⟨sign == ['-'], whole, frac.tail?, exp.tail?⟩ <;> rfl

/-- Digits, perhaps behind a minus, are read as their value, if that is in range. -/
theorem parse_of_digits
    {sign whole : List Char}
    (htext : text.toList = sign ++ whole)
    (hsign : sign = [] ∨ sign = ['-'])
    (hwhole : Text.isDigits whole = true)
    {n : Int}
    (hn : n = if sign == ['-'] then -(Text.digitsValue whole : Int) else Text.digitsValue whole) :
    parse text =
      if least ≤ n ∧ n ≤ greatest then .ok (.integer n) else .error (.outOfRange text) := by
  have hvalue : Parts.value? ⟨sign == ['-'], whole, none, none⟩ =
      if least ≤ n ∧ n ≤ greatest then some (.integer n) else none := by
    rw [hn]
    rfl
  have hpieces : text.toList = sign ++ (whole ++ ([] ++ [])) := by
    simpa using htext
  have hparse := parse_of_append hpieces hsign hwhole (.inl rfl) (.inl rfl)
  rw [List.tail?_nil, hvalue] at hparse
  rw [hparse]
  split <;> rfl

/-- A literal without fraction and exponent spells a whole number, and is read as it. -/
theorem parse_of_mem_wholeNumber
    (h : text.toList ∈ wholeNumber) :
    ∃ n, Codec.SpellsInteger text n ∧ parse text =
      if least ≤ n ∧ n ≤ greatest then .ok (.integer n) else .error (.outOfRange text) := by
  obtain ⟨sign, whole, htext, hsign, hwhole⟩ := mem_wholeNumber.mp h
  refine ⟨_, ?_, parse_of_digits htext hsign hwhole rfl⟩
  rcases hsign with rfl | rfl
  · rw [List.nil_append] at htext
    subst htext
    exact .plain hwhole
  · exact .minus htext hwhole

/-- A literal with a fraction or an exponent is read as a double. -/
theorem parse_of_fractional
    (h : text.toList ∈ grammar)
    (hwhole : text.toList ∉ wholeNumber) :
    ∃ d, parse text = .ok (.float d) := by
  obtain ⟨sign, whole, frac, exp, htext, hsign, hdigits, hfrac, hexp⟩ := mem_grammar.mp h
  rw [parse_of_append htext hsign hdigits hfrac hexp]
  cases frac with
  | cons c places =>
      exact ⟨_, rfl⟩
  | nil =>
      cases exp with
      | cons c rest =>
          exact ⟨_, rfl⟩
      | nil =>
          refine absurd (mem_wholeNumber.mpr ⟨sign, whole, ?_, hsign, hdigits⟩) hwhole
          simpa using htext

/-- The written form of a whole number is read back to it. -/
theorem parse_display
    {n : Int}
    (hleast : least ≤ n)
    (hgreatest : n ≤ greatest) :
    parse (display (.integer n)) = .ok (.integer n) := by
  have hdigits := Text.isDigits_toDigits n.natAbs
  have hsize := Text.digitsValue_toDigits n.natAbs
  have hparse : parse (toString n) =
      if least ≤ n ∧ n ≤ greatest then .ok (.integer n) else .error (.outOfRange (toString n)) := by
    rcases Text.toList_toString_int n with ⟨hn, htext⟩ | ⟨hn, htext⟩
    · have hplain : (toString n).toList = [] ++ Nat.toDigits 10 n.natAbs := htext
      refine parse_of_digits hplain (.inl rfl) hdigits ?_
      rw [hsize, if_neg (by decide), Int.natAbs_of_nonneg hn]
    · have hminus : (toString n).toList = ['-'] ++ Nat.toDigits 10 n.natAbs := htext
      refine parse_of_digits hminus (.inr rfl) hdigits ?_
      rw [hsize, if_pos (by decide), Int.ofNat_natAbs_of_nonpos hn.le, Int.neg_neg]
  rwa [if_pos ⟨hleast, hgreatest⟩] at hparse

end Reading

section Lexing

open Token (numberRun)

/-- A word that the rule of numbers matches is one token. -/
theorem lex_of_mem_number
    {text : String}
    (h : text.toList ∈ Token.Rule.number.language) :
    Token.lex text = [⟨.terminal (.number text), 0, text.toList⟩] := by
  obtain ⟨sign, hsign, word, hword, htext⟩ := Language.mem_mul.mp h
  obtain ⟨d, rest, rfl, hd, hrest⟩ := Token.mem_oneOf_mul.mp hword
  have hlength := Token.length_le_numberRun hrest List.prefix_rfl
  -- the lexer takes all that is there
  have hscan : ∃ c cs, text.toList = c :: cs ∧ ∃ n, cs.length ≤ n ∧
      Token.scan c cs = (some (.terminal (.number (Token.spanText c n cs))), n) := by
    rcases hsign with rfl | rfl
    · exact ⟨d, rest, htext.symm, _, hlength, Token.scan_of_isDigit rest hd⟩
    · refine ⟨'-', d :: rest, htext.symm, 1 + numberRun rest, ?_, ?_⟩
      · rw [List.length_cons]
        omega
      · rw [Token.scan_minus, if_pos hd]
  obtain ⟨c, cs, hcons, n, hn, hscan⟩ := hscan
  have hwhole : Token.spanText c n cs = text := by
    rw [Token.spanText, List.take_of_length_le hn, ← hcons, String.ofList_toList]
  rw [Token.lex, hcons, Token.lexFrom_cons, hscan, hwhole, List.take_of_length_le hn,
    List.drop_of_length_le hn, Token.lexFrom]
  rfl

theorem isWordChar_of_isDigits
    {word : List Char}
    (h : Text.isDigits word = true) :
    ∀ c ∈ word, Token.isWordChar c = true := by
  intro c hc
  simp only [Text.isDigits, Bool.and_eq_true, List.all_eq_true] at h
  have hdigit : c.isDigit = true := by
    have hbounds := h.2 c hc
    simp only [Text.isDigit, Bool.and_eq_true, decide_eq_true_eq] at hbounds
    simp only [Char.isDigit, Bool.and_eq_true, decide_eq_true_eq]
    exact hbounds
  simp [Token.isWordChar, Char.isAlphanum, hdigit]

/-- An exponent is word characters up to its sign, and a sign and word characters from there on. -/
theorem exists_append_of_exponent
    {exp : List Char}
    (h : exp = [] ∨ exp ∈ exponent) :
    ∃ word last, exp = word ++ last ∧ (∀ c ∈ word, Token.isWordChar c = true) ∧
      (last = [] ∨ last ∈ Token.signed) := by
  rcases h with rfl | h
  · exact ⟨[], [], rfl, by simp, .inl rfl⟩
  · obtain ⟨mark, rest, rfl, hmark, hrest⟩ := mem_exponent.mp h
    have hword : Token.isWordChar mark = true := by
      rw [Bool.or_eq_true, beq_iff_eq, beq_iff_eq] at hmark
      rcases hmark with rfl | rfl <;> rfl
    have hsigned : ∀ sign ds, (sign = '+' ∨ sign = '-') → Text.isDigits ds = true →
        sign :: ds ∈ Token.signed := by
      intro sign ds hsign hds
      have hchars := isWordChar_of_isDigits hds
      cases ds with
      | nil =>
          cases hds
      | cons d ds =>
          obtain ⟨hd, hds⟩ := List.forall_mem_cons.mp hchars
          exact Token.mem_signed.mpr ⟨sign, d, ds, rfl, hsign, hd, hds⟩
    unfold exponentDigits at hrest
    split at hrest
    · exact ⟨[mark], _, rfl, by simpa using hword, .inr (hsigned '+' _ (.inl rfl) hrest)⟩
    · exact ⟨[mark], _, rfl, by simpa using hword, .inr (hsigned '-' _ (.inr rfl) hrest)⟩
    · exact ⟨mark :: _, [], (List.append_nil _).symm,
        List.forall_mem_cons.mpr ⟨hword, isWordChar_of_isDigits hrest⟩, .inl rfl⟩

/-- The rule by which the lexer takes numbers matches every literal. -/
theorem mem_number_of_mem_grammar
    {word : List Char}
    (h : word ∈ grammar) :
    word ∈ Token.Rule.number.language := by
  obtain ⟨sign, whole, frac, exp, rfl, hsign, hwhole, hfrac, hexp⟩ := mem_grammar.mp h
  obtain ⟨d, ds, rfl, hd, hds⟩ := Token.mem_oneOf_mul.mp (mem_digits.mpr hwhole)
  obtain ⟨mark, last, rfl, hmark, hlast⟩ := exists_append_of_exponent hexp
  have hdigits : ∀ c ∈ ds, Token.isWordChar c = true :=
    (List.forall_mem_cons.mp (isWordChar_of_isDigits hwhole)).2
  refine Language.mem_mul.mpr ⟨sign, hsign, _, Token.mem_oneOf_mul.mpr
    ⟨d, ds ++ (frac ++ (mark ++ last)), rfl, hd, ?_⟩, rfl⟩
  rcases hfrac with rfl | hfrac
  · refine Token.mem_numberRest.mpr ⟨ds ++ mark, [], last, by simp, ?_, .inl rfl, hlast⟩
    exact fun c hc => (List.mem_append.mp hc).elim (hdigits c) (hmark c)
  · obtain ⟨places, rfl, hplaces⟩ := mem_fraction.mp hfrac
    refine Token.mem_numberRest.mpr ⟨ds, '.' :: (places ++ mark), last, by simp, hdigits,
      .inr (Token.mem_fraction.mpr ⟨_, rfl, ?_⟩), hlast⟩
    exact fun c hc =>
      (List.mem_append.mp hc).elim (isWordChar_of_isDigits hplaces c) (hmark c)

end Lexing

/-- What is read from a text, by the grammar `-?digits(.digits)?([eE][+-]?digits)?`.  A text is
malformed exactly when it is no literal.  A literal without fraction and exponent is the whole
number that it spells, if that has 128 bits, and out of range otherwise; one with a fraction or an
exponent is a double.  Every literal is one token of a source, and the written form of a whole
number is read back to it. -/
theorem parse_grammar :
    (∀ text, parse text = .error (.malformed text) ↔ text.toList ∉ grammar) ∧
      (∀ text, text.toList ∈ wholeNumber → ∃ n, Codec.SpellsInteger text n ∧
        parse text =
          if -2 ^ 127 ≤ n ∧ n < 2 ^ 127 then .ok (.integer n) else .error (.outOfRange text)) ∧
      (∀ text, text.toList ∈ grammar → text.toList ∉ wholeNumber →
        ∃ d, parse text = .ok (.float d)) ∧
      (∀ text, text.toList ∈ grammar →
        Token.lex text = [⟨.terminal (.number text), 0, text.toList⟩]) ∧
      ∀ n, -2 ^ 127 ≤ n → n < 2 ^ 127 → parse (display (.integer n)) = .ok (.integer n) := by
  have hrange : ∀ n, (least ≤ n ∧ n ≤ greatest) ↔ (-2 ^ 127 ≤ n ∧ n < 2 ^ 127) := by
    intro n
    unfold least greatest
    omega
  refine ⟨fun text => parse_eq_malformed_iff, fun text h => ?_,
    fun text h hwhole => parse_of_fractional h hwhole,
    fun text h => lex_of_mem_number (mem_number_of_mem_grammar h), fun n hleast hgreatest => ?_⟩
  · obtain ⟨n, hn, hparse⟩ := parse_of_mem_wholeNumber h
    exact ⟨n, hn, by simpa only [hrange] using hparse⟩
  · obtain ⟨hlow, hhigh⟩ := (hrange n).mpr ⟨hleast, hgreatest⟩
    exact parse_display hlow hhigh

/-- A whole number with zeros in front, and a literal with all parts there can be. -/
theorem parse_grammar_samples :
    "-007".toList ∈ wholeNumber ∧ parse "-007" = .ok (.integer (-7)) ∧
      "-0.5e+3".toList ∈ grammar ∧ "-0.5e+3".toList ∉ wholeNumber ∧
      (∃ n, Codec.SpellsInteger "-007" n ∧ parse "-007" =
        if -2 ^ 127 ≤ n ∧ n < 2 ^ 127 then .ok (.integer n) else .error (.outOfRange "-007")) ∧
      (∃ d, parse "-0.5e+3" = .ok (.float d)) ∧
      Token.lex "-0.5e+3" = [⟨.terminal (.number "-0.5e+3"), 0, "-0.5e+3".toList⟩] ∧
      parse (display (.integer (-2 ^ 127))) = .ok (.integer (-2 ^ 127)) := by
  have hwhole : "-007".toList ∈ wholeNumber :=
    mem_wholeNumber.mpr ⟨['-'], ['0', '0', '7'], rfl, .inr rfl, by decide⟩
  have hgrammar : "-0.5e+3".toList ∈ grammar := (wellFormed_iff _).mp (by decide)
  have hfractional : "-0.5e+3".toList ∉ wholeNumber := by
    intro h
    obtain ⟨sign, whole, htext, hsign, hdigits⟩ := mem_wholeNumber.mp h
    have hpoint : '.' ∈ sign ++ whole := by
      rw [← htext]
      decide
    rcases List.mem_append.mp hpoint with hpoint | hpoint
    · rcases hsign with rfl | rfl <;> simp at hpoint
    · exact notMem_of_isDigits hdigits (by decide) hpoint
  obtain ⟨-, hinteger, hfloat, htoken, hback⟩ := parse_grammar
  exact ⟨hwhole, by decide +kernel, hgrammar, hfractional, hinteger _ hwhole,
    hfloat _ hgrammar hfractional, htoken _ hgrammar, hback _ (by decide) (by decide)⟩

end Number
end Schemata
