import Schemata.Proofs.Token.Rule

/-!
# One step of the lexer

A step of the lexer looks at the first character and says how far the token
goes.  It never takes less than a rule matches, and what it takes is what the
rule of the token matches; so what it takes is the longest match.

**Results.**
* `takes_of_match`: where a rule matches, the lexer takes at least as much.
* `scan_piece`: what the lexer takes, it takes as the rules say.
-/

namespace Schemata
namespace Token

section Classes

variable {c : Char}

theorem isLower_iff :
    c.isLower = true ↔ 97 ≤ c.toNat ∧ c.toNat ≤ 122 := by
  simp only [Char.isLower, Bool.and_eq_true, decide_eq_true_eq, ge_iff_le, UInt32.le_iff_toNat_le]
  exact Iff.rfl

theorem isUpper_iff :
    c.isUpper = true ↔ 65 ≤ c.toNat ∧ c.toNat ≤ 90 := by
  simp only [Char.isUpper, decide_eq_true_eq, ge_iff_le, UInt32.le_iff_toNat_le]
  exact Iff.rfl

theorem isDigit_iff :
    Text.isDigit c = true ↔ 48 ≤ c.toNat ∧ c.toNat ≤ 57 := by
  simp only [Text.isDigit, Bool.and_eq_true, decide_eq_true_eq, Char.le_def,
    UInt32.le_iff_toNat_le]
  exact Iff.rfl

theorem small_iff :
    (c.isLower || c = '_') = true ↔ (97 ≤ c.toNat ∧ c.toNat ≤ 122) ∨ c.toNat = 95 := by
  rw [Bool.or_eq_true, isLower_iff, decide_eq_true_eq, ← Char.toNat_inj]
  exact Iff.rfl

theorem toNat_le_of_isBlank
    (h : isBlank c = true) :
    c.toNat ≤ 32 := by
  simp only [isBlank, Bool.or_eq_true, decide_eq_true_eq, or_assoc] at h
  rcases h with rfl | rfl | rfl | rfl | rfl <;> decide

end Classes

section Steps

variable {c : Char}
variable (cs : List Char)

theorem scan_of_blank
    (h : isBlank c = true) :
    scan c cs = (none, run isBlank cs) := by
  unfold scan
  rw [if_pos h]

theorem scan_of_small
    (h : (c.isLower || c = '_') = true) :
    scan c cs =
      (some (ofWord (spanText c (run isWordChar cs) cs)), run isWordChar cs) := by
  have hcode := small_iff.mp h
  have hblank : ¬isBlank c = true := fun hblank => by
    have hle := toNat_le_of_isBlank hblank
    omega
  unfold scan
  rw [if_neg hblank, if_pos h]

theorem scan_of_isUpper
    (h : c.isUpper = true) :
    scan c cs =
      (some (.terminal (.typeIdent (spanText c (run isWordChar cs) cs))), run isWordChar cs) := by
  have hcode := isUpper_iff.mp h
  have hblank : ¬isBlank c = true := fun hblank => by
    have hle := toNat_le_of_isBlank hblank
    omega
  have hsmall : ¬(c.isLower || c = '_') = true := by
    rw [small_iff]
    omega
  unfold scan
  rw [if_neg hblank, if_neg hsmall, if_pos h]

theorem scan_of_isDigit
    (h : Text.isDigit c = true) :
    scan c cs =
      (some (.terminal (.number (spanText c (numberRun cs) cs))), numberRun cs) := by
  have hcode := isDigit_iff.mp h
  have hblank : ¬isBlank c = true := fun hblank => by
    have hle := toNat_le_of_isBlank hblank
    omega
  have hsmall : ¬(c.isLower || c = '_') = true := by
    rw [small_iff]
    omega
  have hupper : ¬c.isUpper = true := by
    rw [isUpper_iff]
    omega
  unfold scan
  rw [if_neg hblank, if_neg hsmall, if_neg hupper, if_pos h]

theorem scan_quote :
    scan '\x22' cs = (some (StringLiteral.scan cs).1, (StringLiteral.scan cs).2) :=
  rfl

theorem scan_minus
    (d : Char) :
    scan '-' (d :: cs) =
      if Text.isDigit d then
        (some (.terminal (.number (spanText '-' (1 + numberRun cs) (d :: cs)))),
          1 + numberRun cs)
      else if d = '>' then (some (.terminal (.punctuation .arrow)), 1)
      else (some (.stray '-'), 0) :=
  rfl

theorem scan_comment :
    scan '/' ('/' :: cs) =
      (ofComment? (cs.take (run (· != '\n') cs)), run (· != '\n') cs + 1) :=
  rfl

theorem scan_colonColon :
    scan ':' (':' :: cs) = (some (.terminal (.punctuation .colonColon)), 1) :=
  rfl

/-- A character that no longer token can begin with is a mark, or stray. -/
theorem scan_of_other
    {cs : List Char}
    (hblank : ¬isBlank c = true)
    (hsmall : ¬(c.isLower || c = '_') = true)
    (hupper : ¬c.isUpper = true)
    (hdigit : ¬Text.isDigit c = true)
    (hquote : c ≠ '\x22')
    (hminus : c = '-' → cs = [])
    (hslash : c = '/' → cs.head? ≠ some '/')
    (hcolon : c = ':' → cs.head? ≠ some ':') :
    scan c cs =
      match punctuation? c with
      | some mark => (some (.terminal (.punctuation mark)), 0)
      | none => (some (.stray c), 0) := by
  unfold scan
  rw [if_neg hblank, if_neg hsmall, if_neg hupper, if_neg hdigit, if_neg hquote]
  split
  · cases hminus rfl
  · exact absurd rfl (hslash rfl)
  · exact absurd rfl (hcolon rfl)
  · rfl

theorem scan_colon
    {cs : List Char}
    (h : cs.head? ≠ some ':') :
    scan ':' cs = (some (.terminal (.punctuation .colon)), 0) :=
  scan_of_other (by decide) (by decide) (by decide) (by decide) (by decide)
    (fun heq => absurd heq (by decide)) (fun heq => absurd heq (by decide)) fun _ => h

end Steps

section Matches

variable {c : Char}
variable {cs word : List Char}

theorem ofWord_ne_stray
    (text : String)
    (d : Char) :
    ofWord text ≠ .stray d := by
  unfold ofWord
  cases Keyword.ofSpelling? text <;> exact Token.noConfusion

theorem scan_literal_ne_stray
    (cs : List Char)
    (d : Char) :
    (StringLiteral.scan cs).1 ≠ .stray d := by
  unfold StringLiteral.scan
  cases StringLiteral.readBody? 0 ⟨0, 0, [], none⟩ cs with
  | none => exact Token.noConfusion
  | some progress =>
      obtain ⟨bytes, count, value, invalid⟩ := progress
      cases invalid <;> exact Token.noConfusion

/-- The lexer takes at least `n` characters, and not as a character that begins no token. -/
structure Takes
    (c : Char)
    (cs : List Char)
    (n : Nat) : Prop where
  length_le : n ≤ (scan c cs).2 + 1
  ne_stray : ∀ d, (scan c cs).1 ≠ some (.stray d)

theorem takes_ident
    (hword : word ∈ Rule.ident.language)
    (h : word <+: c :: cs) :
    Takes c cs word.length := by
  obtain ⟨d, rest, rfl, hd, hrest⟩ := mem_oneOf_mul.mp hword
  obtain ⟨rfl, hprefix⟩ := List.cons_prefix_cons.mp h
  have hle := length_le_run (mem_star_oneOf.mp hrest) hprefix
  constructor
  · rw [scan_of_small cs hd, List.length_cons]
    omega
  · intro e
    rw [scan_of_small cs hd]
    exact fun heq => ofWord_ne_stray _ e (Option.some.inj heq)

theorem takes_number
    (hword : word ∈ Rule.number.language)
    (h : word <+: c :: cs) :
    Takes c cs word.length := by
  obtain ⟨sign, hsign, _, hdigits, rfl⟩ := Language.mem_mul.mp hword
  obtain ⟨d, rest, rfl, hd, hrest⟩ := mem_oneOf_mul.mp hdigits
  rcases mem_one_add.mp hsign with rfl | rfl
  · obtain ⟨rfl, hprefix⟩ := List.cons_prefix_cons.mp h
    have hle := length_le_numberRun hrest hprefix
    constructor
    · rw [scan_of_isDigit cs hd, List.nil_append, List.length_cons]
      omega
    · rw [scan_of_isDigit cs hd]
      exact fun _ heq => Token.noConfusion (Option.some.inj heq)
  · change Takes c cs ('-' :: d :: rest).length
    change '-' :: d :: rest <+: c :: cs at h
    obtain ⟨rfl, hprefix⟩ := List.cons_prefix_cons.mp h
    obtain ⟨after, rfl⟩ := hprefix
    have hle := length_le_numberRun hrest (List.prefix_append rest after)
    have hstep := scan_minus (rest ++ after) d
    rw [if_pos hd] at hstep
    constructor
    · rw [List.cons_append, hstep, List.length_cons, List.length_cons]
      omega
    · rw [List.cons_append, hstep]
      exact fun _ heq => Token.noConfusion (Option.some.inj heq)

theorem takes_typeIdent
    (hword : word ∈ Rule.typeIdent.language)
    (h : word <+: c :: cs) :
    Takes c cs word.length := by
  obtain ⟨d, rest, rfl, hd, hrest⟩ := mem_oneOf_mul.mp hword
  obtain ⟨rfl, hprefix⟩ := List.cons_prefix_cons.mp h
  have hle := length_le_run (mem_star_oneOf.mp hrest) hprefix
  constructor
  · rw [scan_of_isUpper cs hd, List.length_cons]
    omega
  · rw [scan_of_isUpper cs hd]
    exact fun _ heq => Token.noConfusion (Option.some.inj heq)

theorem takes_blank
    (hword : word ∈ Rule.blank.language)
    (h : word <+: c :: cs) :
    Takes c cs word.length := by
  obtain ⟨d, rest, rfl, hd, hrest⟩ := mem_oneOf_mul.mp hword
  obtain ⟨rfl, hprefix⟩ := List.cons_prefix_cons.mp h
  have hle := length_le_run (mem_star_oneOf.mp hrest) hprefix
  constructor
  · rw [scan_of_blank cs hd, List.length_cons]
    omega
  · rw [scan_of_blank cs hd]
    exact fun _ heq => nomatch heq

theorem takes_quote
    (hword : word ∈ Rule.quote.language)
    (h : word <+: c :: cs) :
    Takes c cs word.length := by
  obtain rfl : word = ['\x22'] := hword
  obtain ⟨rfl, -⟩ := List.cons_prefix_cons.mp h
  constructor
  · rw [List.length_singleton]
    omega
  · rw [scan_quote]
    exact fun d heq => scan_literal_ne_stray cs d (Option.some.inj heq)

theorem ofComment?_ne_stray
    (text : List Char)
    (d : Char) :
    ofComment? text ≠ some (.stray d) := by
  fun_cases ofComment? text <;> exact fun heq => nomatch heq

theorem takes_comment
    (hword : word ∈ Rule.comment.language)
    (h : word <+: c :: cs) :
    Takes c cs word.length := by
  obtain ⟨_, rfl, rest, hrest, rfl⟩ := Language.mem_mul.mp hword
  change Takes c cs ('/' :: '/' :: rest).length
  change '/' :: '/' :: rest <+: c :: cs at h
  obtain ⟨rfl, hprefix⟩ := List.cons_prefix_cons.mp h
  obtain ⟨after, rfl⟩ := hprefix
  have hle := length_le_run (mem_star_oneOf.mp hrest) (List.prefix_append rest after)
  constructor
  · rw [List.cons_append, scan_comment, List.length_cons, List.length_cons]
    omega
  · rw [List.cons_append, scan_comment]
    exact ofComment?_ne_stray _

theorem takes_punctuation
    {mark : Punctuation}
    (hword : word ∈ (Rule.punctuation mark).language)
    (h : word <+: c :: cs) :
    Takes c cs word.length := by
  obtain rfl : word = mark.spelling.toList := hword
  cases mark with
  | colonColon =>
      change [':', ':'] <+: c :: cs at h
      obtain ⟨rfl, hprefix⟩ := List.cons_prefix_cons.mp h
      obtain ⟨after, rfl⟩ := hprefix
      exact ⟨le_rfl, fun _ heq => nomatch heq⟩
  | arrow =>
      change ['-', '>'] <+: c :: cs at h
      obtain ⟨rfl, hprefix⟩ := List.cons_prefix_cons.mp h
      obtain ⟨after, rfl⟩ := hprefix
      exact ⟨le_rfl, fun _ heq => nomatch heq⟩
  | colon =>
      change [':'] <+: c :: cs at h
      obtain ⟨rfl, -⟩ := List.cons_prefix_cons.mp h
      refine ⟨Nat.le_add_left 1 _, fun d => ?_⟩
      by_cases hnext : cs.head? = some ':'
      · obtain ⟨rest, rfl⟩ := List.head?_eq_some_iff.mp hnext
        exact fun heq => nomatch heq
      · rw [scan_colon hnext]
        exact fun heq => nomatch heq
  | _ =>
      obtain ⟨rfl, -⟩ := List.cons_prefix_cons.mp h
      exact ⟨Nat.le_add_left 1 _, fun _ heq => nomatch heq⟩

theorem mem_ident_iff :
    word ∈ Rule.ident.language ↔
      (match word with
        | [] => false
        | c :: rest => (c.isLower || c = '_') && rest.all isWordChar) = true := by
  refine mem_oneOf_mul.trans ?_
  cases word with
  | nil => simp
  | cons c rest => simp [mem_star_oneOf, and_assoc]

theorem mem_ident_keyword
    (word : Keyword) :
    word.spelling.toList ∈ Rule.ident.language := by
  rw [mem_ident_iff]
  cases word with
  | primitive type => cases type <;> rfl
  | _ => rfl

/-- Where a rule matches, the lexer takes at least as much. -/
theorem takes_of_match
    (rule : Rule)
    (hword : word ∈ rule.language)
    (h : word <+: c :: cs) :
    Takes c cs word.length := by
  cases rule with
  | ident => exact takes_ident hword h
  | typeIdent => exact takes_typeIdent hword h
  | quote => exact takes_quote hword h
  | number => exact takes_number hword h
  | comment => exact takes_comment hword h
  | blank => exact takes_blank hword h
  | keyword k =>
      obtain rfl : word = k.spelling.toList := hword
      exact takes_ident (mem_ident_keyword k) h
  | punctuation mark => exact takes_punctuation hword h

end Matches

section Pieces

/-- The token is one of a string literal, closed or not. -/
def IsString : Token → Prop
  | .terminal (.string _) | .unterminated | .invalidEscape _ _ => True
  | _ => False

/-- What each rule makes of the text that it matches. -/
inductive Makes : Rule → List Char → Token → Prop
  | ident
      (text : List Char) :
      Makes .ident text (.terminal (.ident (String.ofList text)))
  | typeIdent
      (text : List Char) :
      Makes .typeIdent text (.terminal (.typeIdent (String.ofList text)))
  | number
      (text : List Char) :
      Makes .number text (.terminal (.number (String.ofList text)))
  | keyword
      (word : Keyword)
      (text : List Char) :
      Makes (.keyword word) text (.terminal (.keyword word))
  | punctuation
      (mark : Punctuation)
      (text : List Char) :
      Makes (.punctuation mark) text (.terminal (.punctuation mark))
  | doc
      (text : List Char) :
      Makes .comment ('/' :: '/' :: '/' :: text) (.doc (docText text))
  | packageDoc
      (text : List Char) :
      Makes .comment ('/' :: '/' :: '!' :: text) (.packageDoc (docText text))

/-- The rule matches the text, and no rule matches more of what is there; an identifier is not
spelled like a keyword. -/
structure LongestMatch
    (rule : Rule)
    (text after : List Char) : Prop where
  matched : text ∈ rule.language
  longest : ∀ (other : Rule) (word : List Char), word ∈ other.language →
    word <+: text ++ after → word.length ≤ text.length
  keyword_first : rule = .ident → ∀ word : Keyword, text ∉ (Rule.keyword word).language

/-- White space, or a comment up to the end of its line that documents nothing. -/
inductive Gap : List Char → List Char → Prop
  | blank
      {text after : List Char}
      (h : text ∈ Rule.blank.language) :
      Gap text after
  | comment
      {text after : List Char}
      (hline : '\n' ∉ text)
      (hend : ∀ c ∈ after.head?, c = '\n')
      (hplain : ∀ c ∈ text.head?, c ≠ '/' ∧ c ≠ '!') :
      Gap ('/' :: '/' :: text) after

/-- What the lexer takes from a place: a token with its text, or a gap. -/
inductive Piece
    (after : List Char) :
    Option Token → List Char → Prop
  | gap
      {text : List Char}
      (h : Gap text after) :
      Piece after none text
  | literal
      {token : Token}
      {text : List Char}
      (h : token.IsString)
      (hquote : text.head? = some '\x22') :
      Piece after (some token) text
  | longest
      {token : Token}
      {text : List Char}
      {rule : Rule}
      (hmakes : Makes rule text token)
      (hmatch : LongestMatch rule text after) :
      Piece after (some token) text
  /-- A character at which no rule matches. -/
  | stray
      (c : Char)
      (hnone : ∀ (rule : Rule) (word : List Char), word ∈ rule.language → ¬ word <+: c :: after) :
      Piece after (some (.stray c)) [c]

theorem Makes.not_isString
    {rule : Rule}
    {text : List Char}
    {token : Token}
    (h : Makes rule text token) :
    ¬token.IsString := by
  cases h <;> exact id

theorem Piece.quote_of_isString
    {after text : List Char}
    {token : Token}
    (h : Piece after (some token) text)
    (hstring : token.IsString) :
    text.head? = some '\x22' := by
  cases h with
  | literal _ hquote => exact hquote
  | longest hmakes _ => exact absurd hstring hmakes.not_isString
  | stray c _ => exact hstring.elim

theorem Piece.longest_or_stray
    {after text : List Char}
    {token : Token}
    (h : Piece after (some token) text)
    (hother : ¬token.IsString) :
    (∃ rule, Makes rule text token ∧ LongestMatch rule text after) ∨
      ∃ c, token = .stray c ∧ text = [c] ∧
        ∀ (rule : Rule) (word : List Char), word ∈ rule.language → ¬ word <+: text ++ after := by
  cases h with
  | literal hstring _ => exact absurd hstring hother
  | longest hmakes hmatch => exact .inl ⟨_, hmakes, hmatch⟩
  | stray c hnone => exact .inr ⟨c, rfl, rfl, hnone⟩

/-- What the lexer takes at a character is a piece of the text from there on. -/
def StepPiece
    (c : Char)
    (cs : List Char) : Prop :=
  Piece (cs.drop (scan c cs).2) (scan c cs).1 (c :: cs.take (scan c cs).2)

variable {c : Char}
variable {cs : List Char}

theorem length_le_of_match
    {word : List Char}
    (rule : Rule)
    (hword : word ∈ rule.language)
    {n : Nat}
    (hn : (scan c cs).2 = n)
    (h : word <+: c :: cs.take n ++ cs.drop n) :
    word.length ≤ (c :: cs.take n).length := by
  rw [List.cons_append, List.take_append_drop] at h
  have hle := (takes_of_match rule hword h).length_le
  have hlength := h.length_le
  rw [List.length_cons] at hlength
  rw [List.length_cons, List.length_take]
  omega

theorem spelling_of_punctuation?
    {mark : Punctuation}
    (h : punctuation? c = some mark) :
    [c] = mark.spelling.toList := by
  unfold punctuation? at h
  split at h <;> cases h <;> rfl

theorem mem_keywords
    (word : Keyword) :
    word ∈ Keyword.all := by
  cases word with
  | primitive type => cases type <;> decide
  | _ => decide

/-- Reading at one place, for a token that is neither a string literal nor stray. -/
theorem piece_longest
    {token : Token}
    {n : Nat}
    (hstep : scan c cs = (some token, n))
    (rule : Rule)
    (hmakes : Makes rule (c :: cs.take n) token)
    (hmatched : c :: cs.take n ∈ rule.language)
    (hkeyword : rule = .ident → ∀ word : Keyword, c :: cs.take n ∉ (Rule.keyword word).language) :
    StepPiece c cs := by
  have hn : (scan c cs).2 = n := by rw [hstep]
  rw [StepPiece, hstep]
  exact .longest hmakes ⟨hmatched, fun other word hword h => length_le_of_match other hword hn h,
    hkeyword⟩

theorem piece_stray
    (hstep : scan c cs = (some (.stray c), 0)) :
    StepPiece c cs := by
  have hnone : ∀ (rule : Rule) (word : List Char), word ∈ rule.language →
      ¬ word <+: c :: cs := by
    intro rule word hword h
    exact (takes_of_match rule hword h).ne_stray c (by rw [hstep])
  rw [StepPiece, hstep]
  exact .stray c hnone

theorem piece_small
    (h : (c.isLower || c = '_') = true) :
    StepPiece c cs := by
  have hstep := scan_of_small cs h
  have hident : c :: cs.take (run isWordChar cs) ∈ Rule.ident.language :=
    mem_oneOf_mul.mpr ⟨c, _, rfl, h, take_run_mem_star _ cs⟩
  cases hword : Keyword.ofSpelling? (spanText c (run isWordChar cs) cs) with
  | some k =>
      have hspelling : k.spelling = spanText c (run isWordChar cs) cs := by
        simpa using List.find?_some hword
      rw [ofWord, hword] at hstep
      refine piece_longest hstep (.keyword k) (.keyword k _) ?_ (fun hident => nomatch hident)
      rw [Rule.language, mem_literal, hspelling]
      exact (String.toList_ofList).symm
  | none =>
      rw [ofWord, hword] at hstep
      refine piece_longest hstep .ident (.ident _) hident fun _ k hk => ?_
      have hne := List.find?_eq_none.mp hword k (mem_keywords k)
      rw [Rule.language, mem_literal] at hk
      exact hne (by rw [spanText, hk, String.ofList_toList, beq_self_eq_true])

theorem piece_blank
    (h : isBlank c = true) :
    StepPiece c cs := by
  rw [StepPiece, scan_of_blank cs h]
  exact .gap (.blank (mem_oneOf_mul.mpr ⟨c, _, rfl, h, take_run_mem_star _ cs⟩))

theorem piece_isUpper
    (h : c.isUpper = true) :
    StepPiece c cs := by
  refine piece_longest (scan_of_isUpper cs h) .typeIdent (.typeIdent _) ?_
    (fun hident => nomatch hident)
  exact mem_oneOf_mul.mpr ⟨c, _, rfl, h, take_run_mem_star _ cs⟩

theorem piece_isDigit
    (h : Text.isDigit c = true) :
    StepPiece c cs := by
  refine piece_longest (scan_of_isDigit cs h) .number (.number _) ?_ (fun hident => nomatch hident)
  exact Language.mem_mul.mpr ⟨[], Or.inl rfl, _,
    mem_oneOf_mul.mpr ⟨c, _, rfl, h, take_numberRun cs⟩, rfl⟩

theorem piece_quote :
    StepPiece '\x22' cs := by
  rw [StepPiece, scan_quote]
  refine .literal ?_ rfl
  unfold StringLiteral.scan
  cases StringLiteral.readBody? 0 ⟨0, 0, [], none⟩ cs with
  | none => trivial
  | some progress =>
      obtain ⟨bytes, count, value, invalid⟩ := progress
      cases invalid <;> trivial

theorem piece_minus
    (d : Char)
    (ds : List Char) :
    StepPiece '-' (d :: ds) := by
  have hstep := scan_minus ds d
  by_cases hd : Text.isDigit d = true
  · rw [if_pos hd] at hstep
    refine piece_longest hstep .number (.number _) ?_ (fun hident => nomatch hident)
    rw [Nat.add_comm, List.take_succ_cons]
    exact Language.mem_mul.mpr ⟨['-'], Or.inr rfl, _,
      mem_oneOf_mul.mpr ⟨d, _, rfl, hd, take_numberRun ds⟩, rfl⟩
  · rw [if_neg hd] at hstep
    by_cases harrow : d = '>'
    · rw [if_pos harrow] at hstep
      refine piece_longest hstep (.punctuation .arrow) (.punctuation .arrow _) ?_
        (fun hident => nomatch hident)
      rw [harrow]
      rfl
    · rw [if_neg harrow] at hstep
      exact piece_stray hstep

theorem piece_comment
    (ds : List Char) :
    StepPiece '/' ('/' :: ds) := by
  have hstep := scan_comment ds
  have hmatched : '/' :: '/' :: ds.take (run (· != '\n') ds) ∈ Rule.comment.language :=
    Language.mem_mul.mpr ⟨['/', '/'], rfl, _, take_run_mem_star _ ds, rfl⟩
  have hline : '\n' ∉ ds.take (run (· != '\n') ds) := fun hmem =>
    absurd (of_mem_take_run hmem) (by decide)
  generalize htext : ds.take (run (· != '\n') ds) = text at hstep hline hmatched
  unfold ofComment? at hstep
  split at hstep
  · rename_i text
    refine piece_longest hstep .comment ?_ ?_ (fun hident => nomatch hident)
    · rw [List.take_succ_cons, htext]
      exact .doc text
    · rwa [List.take_succ_cons, htext]
  · rename_i text
    refine piece_longest hstep .comment ?_ ?_ (fun hident => nomatch hident)
    · rw [List.take_succ_cons, htext]
      exact .packageDoc text
    · rwa [List.take_succ_cons, htext]
  · rename_i hdoc hpackage
    rw [StepPiece, hstep, List.take_succ_cons, List.drop_succ_cons, htext]
    refine .gap (.comment hline (fun c hc => ?_) (fun c hc => ?_))
    · simpa using of_head?_drop_run hc
    · obtain ⟨rest, rfl⟩ := List.head?_eq_some_iff.mp hc
      exact ⟨fun heq => hdoc rest (by rw [heq]), fun heq => hpackage rest (by rw [heq])⟩

/-- What the lexer takes at a place, it takes as the rules say. -/
theorem scan_piece
    (c : Char)
    (cs : List Char) :
    StepPiece c cs := by
  by_cases hblank : isBlank c = true
  · exact piece_blank hblank
  by_cases hsmall : (c.isLower || c = '_') = true
  · exact piece_small hsmall
  by_cases hupper : c.isUpper = true
  · exact piece_isUpper hupper
  by_cases hdigit : Text.isDigit c = true
  · exact piece_isDigit hdigit
  by_cases hquote : c = '\x22'
  · rw [hquote]
    exact piece_quote
  by_cases hminus : c = '-' ∧ cs ≠ []
  · obtain ⟨rfl, hcs⟩ := hminus
    obtain ⟨d, ds, rfl⟩ := List.exists_cons_of_ne_nil hcs
    exact piece_minus d ds
  by_cases hslash : c = '/' ∧ cs.head? = some '/'
  · obtain ⟨rfl, hhead⟩ := hslash
    obtain ⟨ds, rfl⟩ := List.head?_eq_some_iff.mp hhead
    exact piece_comment ds
  by_cases hcolon : c = ':' ∧ cs.head? = some ':'
  · obtain ⟨rfl, hhead⟩ := hcolon
    obtain ⟨ds, rfl⟩ := List.head?_eq_some_iff.mp hhead
    exact piece_longest (scan_colonColon ds) (.punctuation .colonColon)
      (.punctuation .colonColon _) rfl (fun hident => nomatch hident)
  have hstep := scan_of_other hblank hsmall hupper hdigit hquote
    (fun hc => not_not.mp fun hcs => hminus ⟨hc, hcs⟩) (fun hc hcs => hslash ⟨hc, hcs⟩)
    (fun hc hcs => hcolon ⟨hc, hcs⟩)
  cases hmark : punctuation? c with
  | none =>
      rw [hmark] at hstep
      exact piece_stray hstep
  | some mark =>
      rw [hmark] at hstep
      refine piece_longest hstep (.punctuation mark) (.punctuation mark _) ?_
        (fun hident => nomatch hident)
      rw [List.take_zero]
      exact spelling_of_punctuation? hmark

end Pieces

end Token
end Schemata
