import Schemata.Token.Lexer
import Mathlib

/-!
# The rules of tokens

The tokens of a schema file are declared by rules.  The language of a rule is
given here as regular expressions are: by classes of characters, sequence, choice
and repetition.  The lexer reads a repetition as a run of characters and never
goes back; this loses nothing, since what may follow a run begins with a
character that cannot continue it.

**Results.** `run_cases`, `take_numberRun`, `length_le_numberRun`.
-/

namespace Schemata
namespace Token

open scoped Computability

section Languages

/-- One character of a class. -/
def oneOf
    (p : Char → Bool) :
    Language Char :=
  {word | ∃ c, p c = true ∧ word = [c]}

/-- A fixed text. -/
def literal
    (text : String) :
    Language Char :=
  {text.toList}

/-- What may follow the whole part of a number. -/
def fraction : Language Char :=
  literal "." * (oneOf isWordChar)∗

/-- What may come last in a number. -/
def signed : Language Char :=
  oneOf (fun c => c = '+' || c = '-') * (oneOf isWordChar * (oneOf isWordChar)∗)

/-- What follows the first digit of a number. -/
def numberRest : Language Char :=
  (oneOf isWordChar)∗ * ((1 + fraction) * (1 + signed))

/-- A rule that tokens, or the gaps between them, are declared with. -/
inductive Rule where
  | ident
  | typeIdent
  /-- The quote that begins a string literal. -/
  | quote
  | number
  | comment
  | blank
  | keyword (word : Keyword)
  | punctuation (mark : Punctuation)
deriving DecidableEq, Repr

/-- The words that a rule matches. -/
def Rule.language : Rule → Language Char
  | ident => oneOf (fun c => c.isLower || c = '_') * (oneOf isWordChar)∗
  | typeIdent => oneOf Char.isUpper * (oneOf isWordChar)∗
  | quote => literal "\x22"
  | number => (1 + literal "-") * (oneOf Text.isDigit * numberRest)
  | comment => literal "//" * (oneOf (· != '\n'))∗
  | blank => oneOf isBlank * (oneOf isBlank)∗
  | keyword word => literal word.spelling
  | punctuation mark => literal mark.spelling

variable {p q : Char → Bool}
variable {word : List Char}

@[simp] theorem mem_oneOf :
    word ∈ oneOf p ↔ ∃ c, p c = true ∧ word = [c] :=
  Iff.rfl

@[simp] theorem mem_literal
    {text : String} :
    word ∈ literal text ↔ word = text.toList :=
  Iff.rfl

theorem mem_star_oneOf :
    word ∈ (oneOf p)∗ ↔ ∀ c ∈ word, p c = true := by
  rw [Language.mem_kstar]
  constructor
  · rintro ⟨pieces, rfl, hpieces⟩ c hc
    obtain ⟨piece, hpiece, hc⟩ := List.mem_flatten.mp hc
    obtain ⟨d, hd, rfl⟩ := hpieces piece hpiece
    rwa [List.mem_singleton.mp hc]
  · intro h
    refine ⟨word.map ([·]), by simp [← List.flatMap_def], ?_⟩
    rintro piece hpiece
    obtain ⟨c, hc, rfl⟩ := List.mem_map.mp hpiece
    exact ⟨c, h c hc, rfl⟩

theorem mem_oneOf_mul
    {language : Language Char} :
    word ∈ oneOf q * language ↔ ∃ c rest, word = c :: rest ∧ q c = true ∧ rest ∈ language := by
  rw [Language.mem_mul]
  constructor
  · rintro ⟨_, ⟨c, hc, rfl⟩, rest, hrest, rfl⟩
    exact ⟨c, rest, rfl, hc, hrest⟩
  · rintro ⟨c, rest, rfl, hc, hrest⟩
    exact ⟨[c], ⟨c, hc, rfl⟩, rest, hrest, rfl⟩

theorem mem_one_add
    {language : Language Char} :
    word ∈ 1 + language ↔ word = [] ∨ word ∈ language :=
  Iff.rfl

theorem mem_fraction :
    word ∈ fraction ↔ ∃ rest, word = '.' :: rest ∧ ∀ c ∈ rest, isWordChar c = true := by
  rw [fraction, Language.mem_mul]
  simp only [mem_star_oneOf, mem_literal]
  constructor
  · rintro ⟨_, rfl, rest, hrest, rfl⟩
    exact ⟨rest, rfl, hrest⟩
  · rintro ⟨rest, rfl, hrest⟩
    exact ⟨['.'], rfl, rest, hrest, rfl⟩

theorem mem_signed :
    word ∈ signed ↔ ∃ c d rest, word = c :: d :: rest ∧ (c = '+' ∨ c = '-') ∧
      isWordChar d = true ∧ ∀ e ∈ rest, isWordChar e = true := by
  simp only [signed, mem_oneOf_mul, mem_star_oneOf, Bool.or_eq_true, decide_eq_true_eq]
  constructor
  · rintro ⟨c, _, rfl, hc, d, rest, rfl, hd, hrest⟩
    exact ⟨c, d, rest, rfl, hc, hd, hrest⟩
  · rintro ⟨c, d, rest, rfl, hc, hd, hrest⟩
    exact ⟨c, d :: rest, rfl, hc, d, rest, rfl, hd, hrest⟩

theorem mem_numberRest :
    word ∈ numberRest ↔ ∃ whole frac last, word = whole ++ (frac ++ last) ∧
      (∀ c ∈ whole, isWordChar c = true) ∧ (frac = [] ∨ frac ∈ fraction) ∧
      (last = [] ∨ last ∈ signed) := by
  simp only [numberRest, Language.mem_mul, mem_star_oneOf, mem_one_add]
  constructor
  · rintro ⟨whole, hwhole, _, ⟨frac, hfrac, last, hlast, rfl⟩, rfl⟩
    exact ⟨whole, frac, last, rfl, hwhole, hfrac, hlast⟩
  · rintro ⟨whole, frac, last, rfl, hwhole, hfrac, hlast⟩
    exact ⟨whole, hwhole, _, ⟨frac, hfrac, last, hlast, rfl⟩, rfl⟩

end Languages

section Runs

variable {p : Char → Bool}
variable {cs : List Char}

theorem take_run
    (p : Char → Bool)
    (cs : List Char) :
    cs.take (run p cs) = cs.takeWhile p :=
  (List.prefix_iff_eq_take.mp (List.takeWhile_prefix p)).symm

theorem of_mem_take_run
    {c : Char}
    (h : c ∈ cs.take (run p cs)) :
    p c = true := by
  rw [take_run] at h
  exact List.mem_takeWhile_imp h

theorem take_run_mem_star
    (p : Char → Bool)
    (cs : List Char) :
    cs.take (run p cs) ∈ (oneOf p)∗ :=
  mem_star_oneOf.mpr fun _ hc => of_mem_take_run hc

theorem of_head?_drop_run
    {c : Char}
    (h : c ∈ (cs.drop (run p cs)).head?) :
    p c = false := by
  have hsplit : cs.take (run p cs) ++ cs.drop (run p cs) = cs.takeWhile p ++ cs.dropWhile p := by
    rw [List.take_append_drop, List.takeWhile_append_dropWhile]
  rw [take_run] at hsplit
  rw [List.append_cancel_left hsplit] at h
  have hhead := List.head?_dropWhile_not p cs
  rwa [Option.mem_def.mp h] at hhead

/-- A beginning of characters of a class that something else follows is the whole run. -/
theorem run_cases
    {word rest : List Char}
    (hword : ∀ c ∈ word, p c = true)
    (hrest : ∀ c ∈ rest.head?, p c = false)
    (h : word ++ rest <+: cs) :
    (rest = [] ∧ word.length ≤ run p cs) ∨
      (word.length = run p cs ∧ rest <+: cs.drop (run p cs)) := by
  obtain ⟨after, rfl⟩ := h
  cases rest with
  | nil =>
      refine Or.inl ⟨rfl, ?_⟩
      rw [run, List.append_nil, List.takeWhile_append_of_pos hword]
      simp
  | cons c rest =>
      have hc : p c = false := hrest c rfl
      have hrun : run p (word ++ c :: rest ++ after) = word.length := by
        rw [run, List.append_assoc, List.takeWhile_append_of_pos hword]
        simp [hc]
      refine Or.inr ⟨hrun.symm, ?_⟩
      rw [hrun, List.append_assoc, List.drop_left]
      exact List.prefix_append _ _

theorem length_le_run
    {word : List Char}
    (hword : ∀ c ∈ word, p c = true)
    (h : word <+: cs) :
    word.length ≤ run p cs := by
  have hprefix : word ++ [] <+: cs := by rwa [List.append_nil]
  rcases run_cases hword (by simp) hprefix with ⟨-, hle⟩ | ⟨heq, -⟩
  · exact hle
  · exact heq.le

theorem take_fractionRun
    (cs : List Char) :
    cs.take (fractionRun cs) = [] ∨ cs.take (fractionRun cs) ∈ fraction := by
  unfold fractionRun
  split
  · rename_i rest
    right
    rw [Nat.add_comm, List.take_succ_cons]
    exact mem_fraction.mpr ⟨_, rfl, fun c hc => of_mem_take_run hc⟩
  · left
    exact List.take_zero

theorem take_signedRun
    (cs : List Char) :
    cs.take (signedRun cs) = [] ∨ cs.take (signedRun cs) ∈ signed := by
  unfold signedRun
  split
  · rename_i c d rest
    split
    · rename_i h
      simp only [Bool.and_eq_true, Bool.or_eq_true, decide_eq_true_eq] at h
      right
      rw [Nat.add_comm, List.take_succ_cons, List.take_succ_cons]
      exact mem_signed.mpr ⟨c, d, _, rfl, h.1, h.2, fun e he => of_mem_take_run he⟩
    · left
      exact List.take_zero
  · left
    exact List.take_zero

theorem take_numberRun
    (cs : List Char) :
    cs.take (numberRun cs) ∈ numberRest := by
  simp only [numberRun, List.take_add]
  exact mem_numberRest.mpr ⟨_, _, _, List.append_assoc _ _ _, fun c hc => of_mem_take_run hc,
    take_fractionRun _, take_signedRun _⟩

theorem head?_signed
    {last : List Char}
    (hlast : last = [] ∨ last ∈ signed) :
    ∀ c ∈ last.head?, isWordChar c = false := by
  rintro c hc
  rcases hlast with rfl | hlast
  · cases hc
  · obtain ⟨d, e, rest, rfl, hd, -⟩ := mem_signed.mp hlast
    obtain rfl : d = c := Option.some.inj hc
    rcases hd with rfl | rfl <;> decide

theorem head?_fraction
    {frac last : List Char}
    (hfrac : frac = [] ∨ frac ∈ fraction)
    (hlast : last = [] ∨ last ∈ signed) :
    ∀ c ∈ (frac ++ last).head?, isWordChar c = false := by
  rcases hfrac with rfl | hfrac
  · exact head?_signed hlast
  · obtain ⟨rest, rfl, -⟩ := mem_fraction.mp hfrac
    intro c hc
    obtain rfl : '.' = c := Option.some.inj hc
    decide

/-- The fraction is as long as the lexer reads it, or nothing follows it. -/
theorem fractionRun_cases
    {frac last : List Char}
    (hfrac : frac = [] ∨ frac ∈ fraction)
    (hlast : last = [] ∨ last ∈ signed)
    (h : frac ++ last <+: cs) :
    (last = [] ∧ frac.length ≤ fractionRun cs) ∨
      (frac.length = fractionRun cs ∧ last <+: cs.drop (fractionRun cs)) := by
  rcases hfrac with rfl | hfrac
  · rcases hlast with rfl | hlast
    · exact Or.inl ⟨rfl, Nat.zero_le _⟩
    · obtain ⟨c, d, rest, rfl, hc, -⟩ := mem_signed.mp hlast
      obtain ⟨after, rfl⟩ := h
      right
      rcases hc with rfl | rfl <;> exact ⟨rfl, List.prefix_append _ after⟩
  · obtain ⟨rest, rfl, hrest⟩ := mem_fraction.mp hfrac
    obtain ⟨after, rfl⟩ := h
    have hrun : fractionRun ('.' :: rest ++ last ++ after) =
        1 + run isWordChar (rest ++ last ++ after) := rfl
    rcases run_cases hrest (head?_signed hlast) (List.prefix_append (rest ++ last) after) with
      ⟨hnil, hle⟩ | ⟨heq, hprefix⟩
    · left
      refine ⟨hnil, ?_⟩
      rw [hrun, List.length_cons]
      omega
    · right
      rw [hrun, List.length_cons, ← heq, Nat.add_comm 1]
      refine ⟨rfl, ?_⟩
      rwa [List.cons_append, List.cons_append, List.drop_succ_cons, heq]

theorem length_le_signedRun
    {last : List Char}
    (hlast : last ∈ signed)
    (h : last <+: cs) :
    last.length ≤ signedRun cs := by
  obtain ⟨c, d, rest, rfl, hc, hd, hrest⟩ := mem_signed.mp hlast
  obtain ⟨after, rfl⟩ := h
  have hsign : ((c = '+' || c = '-') && isWordChar d) = true := by
    simp only [hd, Bool.and_true, Bool.or_eq_true, decide_eq_true_eq]
    exact hc
  have hrun := length_le_run hrest (List.prefix_append rest after)
  simp only [List.cons_append, signedRun, hsign, if_true, List.length_cons]
  omega

/-- No other way to read the rest of a number is longer than the lexer's. -/
theorem length_le_numberRun
    {word : List Char}
    (hword : word ∈ numberRest)
    (h : word <+: cs) :
    word.length ≤ numberRun cs := by
  obtain ⟨whole, frac, last, rfl, hwhole, hfrac, hlast⟩ := mem_numberRest.mp hword
  simp only [numberRun, List.length_append]
  rcases run_cases hwhole (head?_fraction hfrac hlast) h with ⟨hnil, hle⟩ | ⟨heq, hprefix⟩
  · obtain ⟨rfl, rfl⟩ := List.append_eq_nil_iff.mp hnil
    simp only [List.length_nil]
    omega
  · rcases fractionRun_cases hfrac hlast hprefix with ⟨rfl, hle⟩ | ⟨heq', hprefix'⟩
    · simp only [List.length_nil]
      omega
    · rcases hlast with rfl | hlast
      · simp only [List.length_nil]
        omega
      · rw [List.drop_drop] at hprefix'
        have hle := length_le_signedRun hlast hprefix'
        omega

end Runs

end Token
end Schemata
