import Schemata.Proofs.Naming.Words
import Schemata.Proofs.Token.Step

/-!
# When identifiers are legal

A name of a field, an endpoint or an argument begins with a small letter or an
underscore and goes on with letters, digits and underscores.  Every casing drops
the underscores in front, so that the first letter or digit of the name comes
first in its spelling.  If this is a digit, the spelling is no identifier, unless
it is marked in front.

All else that is asked of an identifier holds always: a spelling is not empty, it
has letters, digits and underscores only, and it is not a reserved word.

**Results.**
* `flatten_casedWords`, `flatten_wordLists`: cutting a name into words keeps its letters and
  digits.
* `head?_apply`: what the spelling of a name begins with.
* `spellAll_legal`: which identifiers of siblings are legal.
-/

namespace Schemata

/-- The text matches the rule of the names of fields, endpoints and arguments. -/
def IsMemberName
    (name : String) : Prop :=
  name.toList ∈ Token.Rule.ident.language

instance (name : String) : Decidable (IsMemberName name) :=
  decidable_of_iff _ Token.mem_ident_iff.symm

theorem IsMemberName.isIdentText
    {name : String}
    (h : IsMemberName name) :
    Naming.IsIdentText name := by
  obtain ⟨c, rest, hname, hc, hrest⟩ := Token.mem_oneOf_mul.mp h
  intro d hd
  rw [hname] at hd
  rcases List.mem_cons.mp hd with rfl | hd
  · rw [Bool.or_eq_true, decide_eq_true_eq] at hc
    rcases hc with hc | rfl
    · simp [Naming.isIdentChar, Char.isAlphanum, Char.isAlpha, hc]
    · rfl
  · have hword := Token.mem_star_oneOf.mp hrest d hd
    simpa [Naming.isIdentChar, Token.isWordChar] using hword

theorem IsMemberName.toList_ne_nil
    {name : String}
    (h : IsMemberName name) :
    name.toList ≠ [] := by
  obtain ⟨c, rest, hname, -⟩ := Token.mem_oneOf_mul.mp h
  rw [hname]
  exact List.cons_ne_nil c rest

namespace Naming

section Characters

theorem isIdentChar_of_isAlphanum
    {c : Char}
    (h : c.isAlphanum = true) :
    isIdentChar c = true := by
  simp [isIdentChar, h]

theorem toNat_lt_of_isIdentChar
    {c : Char}
    (h : isIdentChar c = true) :
    c.toNat < 128 := by
  rw [isIdentChar, Bool.or_eq_true, beq_iff_eq] at h
  rcases h with h | rfl
  · exact toNat_lt_of_isAlphanum h
  · decide

/-- What is known of a character of identifiers, and what the case mappings do to it. -/
@[mk_iff] structure IdentCase
    (c : Char) : Prop where
  alphanumeric : Text.isAlphanumeric c = c.isAlphanum
  lower : Text.toLowercase c = [c.toLower]
  upper : Text.toUppercase c = [c.toUpper]
  notSigma : c ≠ '\u03a3'
  identLower : isIdentChar c.toLower = true
  identUpper : isIdentChar c.toUpper = true
  digitLower : c.toLower.isDigit = c.isDigit
  digitUpper : c.toUpper.isDigit = c.isDigit
  upperOfLower : c.toLower.toUpper = c.toUpper
  noDigit : c.isDigit = false ↔ c.isAlpha = true ∨ c = '_'

instance (c : Char) : Decidable (IdentCase c) :=
  decidable_of_iff _ (identCase_iff c).symm

theorem IdentCase.of_isIdentChar
    {c : Char}
    (h : isIdentChar c = true) :
    IdentCase c := by
  have hascii : ∀ n : Fin 128, isIdentChar (Char.ofNat n) = true → IdentCase (Char.ofNat n) := by
    decide +kernel
  exact forall_ascii isIdentChar hascii (toNat_lt_of_isIdentChar h) h

end Characters

section Cuts

theorem flatten_consFirst
    (c : Char)
    (pieces : List (List Char)) :
    (Text.consFirst c pieces).flatten = c :: pieces.flatten := by
  cases pieces <;> rfl

theorem flatten_splitWhen
    (sep : Char → Bool)
    (cs : List Char) :
    (Text.splitWhen sep cs).flatten = cs.filter (!sep ·) := by
  induction cs with
  | nil =>
      rfl
  | cons c cs ih =>
      rw [Text.splitWhen]
      split
      next hsep => simp [hsep, ih]
      next hsep => simp [hsep, ih, flatten_consFirst]

/-- Words are cut where they stand. -/
theorem flatten_pieceWords
    (mode : CaseMode)
    (current : List Char)
    {cs : List Char}
    (hne : cs ≠ []) :
    (pieceWords mode current cs).flatten = current ++ cs := by
  induction mode, current, cs using pieceWords.induct with
  | case1 =>
      exact absurd rfl hne
  | case2 =>
      simp [pieceWords]
  | case3 mode current c d cs h ih =>
      simp [pieceWords, h, ih]
  | case4 mode current c d cs h h' ih =>
      rw [pieceWords, if_neg h, if_pos h', List.flatten_cons, ih (List.cons_ne_nil d cs)]
      rfl
  | case5 mode current c d cs h h' ih =>
      simp [pieceWords, h, h', ih]

/-- A word is cut off before a capital only when a capital was read. -/
theorem ne_nil_of_mem_pieceWords
    {mode : CaseMode}
    {current cs w : List Char}
    (hmode : mode = .upper → current ≠ [])
    (hw : w ∈ pieceWords mode current cs) :
    w ≠ [] := by
  induction mode, current, cs using pieceWords.induct with
  | case1 =>
      cases hw
  | case2 =>
      simp only [pieceWords, List.mem_singleton] at hw
      simp [hw]
  | case3 mode current c d cs h ih =>
      simp only [pieceWords, h, and_self, if_true, List.mem_cons] at hw
      rcases hw with rfl | hw
      · simp
      · exact ih (by simp) hw
  | case4 mode current c d cs h h' ih =>
      rw [pieceWords, if_neg h, if_pos h', List.mem_cons] at hw
      rcases hw with rfl | hw
      · exact hmode h'.1
      · exact ih (by simp) hw
  | case5 mode current c d cs h h' ih =>
      rw [pieceWords, if_neg h, if_neg h'] at hw
      exact ih (by simp) hw

/-- Cutting a name into words keeps its letters and digits, in their order. -/
theorem flatten_casedWords
    (cs : List Char) :
    (casedWords cs).flatten = cs.filter Text.isAlphanumeric := by
  have hpiece : ∀ pieces : List (List Char),
      (pieces.flatMap (pieceWords .none [])).flatten = pieces.flatten := by
    intro pieces
    induction pieces with
    | nil =>
        rfl
    | cons piece pieces ih =>
        rw [List.flatMap_cons, List.flatten_append, ih, List.flatten_cons]
        cases piece with
        | nil => rfl
        | cons c cs => rw [flatten_pieceWords .none [] (List.cons_ne_nil c cs), List.nil_append]
  rw [casedWords, hpiece, flatten_splitWhen]
  simp

theorem ne_nil_of_mem_casedWords
    {cs w : List Char}
    (hw : w ∈ casedWords cs) :
    w ≠ [] := by
  obtain ⟨piece, -, hw⟩ := List.mem_flatMap.mp hw
  refine ne_nil_of_mem_pieceWords (fun hmode => ?_) hw
  cases hmode

theorem flatten_closeWord
    (current : List Char)
    (rest : List (List Char)) :
    (closeWord current rest).flatten = current ++ rest.flatten := by
  cases current <;> rfl

theorem flatten_wordsFrom
    (screaming : Bool)
    (current cs : List Char) :
    (wordsFrom screaming current cs).flatten =
      current ++ (cs.filter (·.isAlphanum)).map Char.toLower := by
  induction cs generalizing current with
  | nil =>
      simp [wordsFrom, flatten_closeWord]
  | cons c cs ih =>
      rw [wordsFrom]
      split
      next halphanum =>
        split <;> simp [flatten_closeWord, ih, halphanum]
      next halphanum =>
        simp [flatten_closeWord, ih, halphanum]

/-- The words without separators are the letters and digits of a name. -/
theorem flatten_wordLists
    (name : String) :
    (wordLists name).flatten = (name.toList.filter (·.isAlphanum)).map Char.toLower :=
  flatten_wordsFrom _ [] name.toList

end Cuts

section Spelling

theorem head?_joinSnake
    {ws : List (List Char)}
    (hws : ∀ w ∈ ws, w ≠ []) :
    (joinSnake ws).head? = ws.flatten.head? := by
  cases ws with
  | nil =>
      rfl
  | cons w ws =>
      obtain ⟨c, cs, rfl⟩ := List.exists_cons_of_ne_nil (hws w List.mem_cons_self)
      cases ws <;> rfl

theorem mem_joinSnake
    {ws : List (List Char)}
    {c : Char}
    (hc : c ∈ joinSnake ws) :
    c = '_' ∨ c ∈ ws.flatten := by
  induction ws with
  | nil =>
      cases hc
  | cons w ws ih =>
      cases ws with
      | nil =>
          exact .inr hc
      | cons v ws =>
          simp only [joinSnake, List.intersperse_cons_cons, List.flatten_cons, List.mem_append,
            List.mem_singleton] at hc ih ⊢
          grind

theorem lowerWord_eq_map
    {w : List Char}
    (hw : ∀ c ∈ w, isIdentChar c = true) :
    lowerWord w = w.map Char.toLower := by
  induction w with
  | nil =>
      rfl
  | cons c cs ih =>
      have hc := IdentCase.of_isIdentChar (hw c List.mem_cons_self)
      have hcs := ih fun d hd => hw d (List.mem_cons_of_mem c hd)
      cases cs with
      | nil => simp [lowerWord, hc.notSigma, hc.lower]
      | cons d cs => simp [lowerWord, hc.lower, hcs]

theorem upperWord_eq_map
    {w : List Char}
    (hw : ∀ c ∈ w, isIdentChar c = true) :
    upperWord w = w.map Char.toUpper := by
  induction w with
  | nil =>
      rfl
  | cons c cs ih =>
      have hc := IdentCase.of_isIdentChar (hw c List.mem_cons_self)
      have hcs := ih fun d hd => hw d (List.mem_cons_of_mem c hd)
      rw [upperWord] at hcs ⊢
      simp [hc.upper, hcs]

variable {name : String}

/-- The letters and digits of a name, in the words that are cut at changes of case. -/
theorem flatten_casedWords_toList
    (h : IsIdentText name) :
    (casedWords name.toList).flatten = name.toList.filter (·.isAlphanum) := by
  rw [flatten_casedWords]
  exact List.filter_congr fun c hc => (IdentCase.of_isIdentChar (h c hc)).alphanumeric

/-- A name in words with underscores between them, where each character is mapped by itself. -/
theorem joinSnake_map
    (h : IsIdentText name)
    {spell : List Char → List Char}
    {f : Char → Char}
    (hspell : ∀ w, (∀ c ∈ w, isIdentChar c = true) → spell w = w.map f)
    (hf : ∀ c, isIdentChar c = true → isIdentChar (f c) = true) :
    (joinSnake ((casedWords name.toList).map spell)).head? =
        (name.toList.find? (·.isAlphanum)).map f ∧
      ∀ c ∈ joinSnake ((casedWords name.toList).map spell), isIdentChar c = true := by
  have hflatten := flatten_casedWords_toList h
  have hident : ∀ w ∈ casedWords name.toList, ∀ c ∈ w, isIdentChar c = true := by
    intro w hw c hc
    have hmem : c ∈ (casedWords name.toList).flatten := List.mem_flatten_of_mem hw hc
    rw [hflatten] at hmem
    exact h c (List.mem_filter.mp hmem).1
  have hmap : (casedWords name.toList).map spell = (casedWords name.toList).map (List.map f) :=
    List.map_congr_left fun w hw => hspell w (hident w hw)
  have hjoin : ((casedWords name.toList).map (List.map f)).flatten =
      (name.toList.filter (·.isAlphanum)).map f := by
    rw [← List.map_flatten, hflatten]
  rw [hmap]
  constructor
  · rw [head?_joinSnake, hjoin, List.head?_map, List.head?_filter]
    intro w hw
    obtain ⟨v, hv, rfl⟩ := List.mem_map.mp hw
    simpa using ne_nil_of_mem_casedWords hv
  · intro c hc
    rcases mem_joinSnake hc with rfl | hc
    · rfl
    · rw [hjoin] at hc
      obtain ⟨d, hd, rfl⟩ := List.mem_map.mp hc
      exact hf d (h d (List.mem_filter.mp hd).1)

/-- What a casing does to the first letter of a name. -/
def Casing.initial : Casing → Char → Char
  | lowerSnake, c | lowerCamel, c => c.toLower
  | upperSnake, c | upperCamel, c => c.toUpper

theorem Casing.isDigit_initial
    (casing : Casing)
    {c : Char}
    (h : c.isAlphanum = true) :
    (casing.initial c).isDigit = c.isDigit := by
  have hc := IdentCase.of_isIdentChar (isIdentChar_of_isAlphanum h)
  cases casing with
  | lowerSnake | lowerCamel => exact hc.digitLower
  | upperSnake | upperCamel => exact hc.digitUpper

theorem head?_wordLists
    (name : String) :
    (wordLists name).flatten.head? =
      (name.toList.find? (·.isAlphanum)).map Char.toLower := by
  rw [flatten_wordLists, List.head?_map, List.head?_filter]

theorem toUpper_toLower_find?
    (name : String) :
    ((name.toList.find? (·.isAlphanum)).map Char.toLower).map Char.toUpper =
      (name.toList.find? (·.isAlphanum)).map Char.toUpper := by
  cases hfind : name.toList.find? (·.isAlphanum) with
  | none =>
      rfl
  | some c =>
      have hc := IdentCase.of_isIdentChar (isIdentChar_of_isAlphanum (List.find?_some hfind))
      exact congrArg some hc.upperOfLower

theorem head?_upperCamel
    (name : String) :
    (Casing.upperCamel.apply name).toList.head? =
      (name.toList.find? (·.isAlphanum)).map Char.toUpper := by
  have hhead : ((wordLists name).flatMap capital).head? =
      (wordLists name).flatten.head?.map Char.toUpper := by
    cases hws : wordLists name with
    | nil =>
        rfl
    | cons w ws =>
        obtain ⟨hne, -⟩ := isWord_of_mem_wordLists (hws ▸ List.mem_cons_self)
        obtain ⟨c, cs, rfl⟩ := List.exists_cons_of_ne_nil hne
        rfl
  rw [toList_upperCamel, hhead, head?_wordLists]
  exact toUpper_toLower_find? name

theorem head?_lowerCamel
    (name : String) :
    (Casing.lowerCamel.apply name).toList.head? =
      (name.toList.find? (·.isAlphanum)).map Char.toLower := by
  have hhead := head?_wordLists name
  rw [Casing.apply, String.toList_ofList, camelWords_eq]
  cases hws : wordLists name with
  | nil =>
      rw [hws] at hhead
      exact hhead
  | cons w ws =>
      obtain ⟨hne, hsmall⟩ := isWord_of_mem_wordLists (hws ▸ List.mem_cons_self)
      obtain ⟨c, cs, rfl⟩ := List.exists_cons_of_ne_nil hne
      rw [hws] at hhead
      dsimp only
      rw [lowerWord_eq hsmall]
      exact hhead

/-- A spelling begins with the first letter or digit of the name. -/
theorem head?_apply
    (casing : Casing)
    (h : IsIdentText name) :
    (casing.apply name).toList.head? =
      (name.toList.find? (·.isAlphanum)).map casing.initial := by
  cases casing with
  | lowerSnake =>
      rw [Casing.apply, String.toList_ofList]
      exact (joinSnake_map h (fun w hw => lowerWord_eq_map hw)
        fun c hc => (IdentCase.of_isIdentChar hc).identLower).1
  | upperSnake =>
      rw [Casing.apply, String.toList_ofList]
      exact (joinSnake_map h (fun w hw => upperWord_eq_map hw)
        fun c hc => (IdentCase.of_isIdentChar hc).identUpper).1
  | upperCamel => exact head?_upperCamel name
  | lowerCamel => exact head?_lowerCamel name

/-- A spelling has characters of identifiers only. -/
theorem isIdentText_apply
    (casing : Casing)
    (h : IsIdentText name) :
    IsIdentText (casing.apply name) := by
  cases casing with
  | lowerSnake =>
      rw [IsIdentText, Casing.apply, String.toList_ofList]
      exact (joinSnake_map h (fun w hw => lowerWord_eq_map hw)
        fun c hc => (IdentCase.of_isIdentChar hc).identLower).2
  | upperSnake =>
      rw [IsIdentText, Casing.apply, String.toList_ofList]
      exact (joinSnake_map h (fun w hw => upperWord_eq_map hw)
        fun c hc => (IdentCase.of_isIdentChar hc).identUpper).2
  | upperCamel =>
      exact isIdentText_upperCamel name
  | lowerCamel =>
      have hupper := isIdentText_upperCamel name
      rw [IsIdentText, toList_upperCamel] at hupper
      rw [IsIdentText, Casing.apply, String.toList_ofList, camelWords_eq]
      cases hws : wordLists name with
      | nil =>
          intro c hc
          cases hc
      | cons w ws =>
          rw [hws, List.flatMap_cons] at hupper
          have hword := isWord_of_mem_wordLists (hws ▸ List.mem_cons_self : w ∈ wordLists name)
          have hrest : ws.flatMap capitalWord = ws.flatMap capital :=
            List.flatMap_congr fun v hv =>
              capitalWord_eq (isWord_of_mem_wordLists (hws ▸ List.mem_cons_of_mem w hv))
          dsimp only
          rw [lowerWord_eq hword.2, hrest]
          intro c hc
          rcases List.mem_append.mp hc with hc | hc
          · exact isIdentChar_of_isAlphanum (SmallCase.of_isSmall (hword.2 c hc)).alphanum
          · exact hupper c (List.mem_append_right _ hc)

end Spelling

section Legal

/-- The text begins with a digit. -/
def BeginsWithDigit
    (text : String) : Prop :=
  text.toList.head?.any Char.isDigit = true
deriving Decidable

/-- The first letter or digit of the name is a digit. -/
def HidesDigit
    (name : String) : Prop :=
  (name.toList.find? (·.isAlphanum)).any Char.isDigit = true
deriving Decidable

/-- An identifier of a language: a letter or an underscore, then letters, digits and underscores,
and no reserved word. -/
structure IsLegal
    (language : Language)
    (ident : String) : Prop where
  first : ∃ c rest, ident.toList = c :: rest ∧ (c.isAlpha = true ∨ c = '_')
  text : IsIdentText ident
  free : language.isReserved ident = false

variable {language : Language}
variable {casing : Casing}
variable {name ident : String}

/-- What is legal but for its first character. -/
theorem isLegal_iff
    (hne : ident.toList ≠ [])
    (htext : IsIdentText ident)
    (hfree : language.isReserved ident = false) :
    IsLegal language ident ↔ ¬ BeginsWithDigit ident := by
  obtain ⟨c, rest, hident⟩ := List.exists_cons_of_ne_nil hne
  have hc := IdentCase.of_isIdentChar (htext c (hident ▸ List.mem_cons_self))
  simp only [BeginsWithDigit, hident, List.head?_cons, Option.any_some, Bool.not_eq_true,
    hc.noDigit]
  constructor
  · rintro ⟨⟨d, rest', hident', hd⟩, -, -⟩
    obtain ⟨rfl, -⟩ := List.cons.inj (hident.symm.trans hident')
    exact hd
  · intro hc
    exact ⟨⟨c, rest, hident, hc⟩, htext, hfree⟩

theorem isIdentText_mark
    (language : Language)
    {text : String}
    (h : IsIdentText text) :
    IsIdentText (language.mark.apply text) := by
  cases language <;>
    exact (isIdentText_append _ _).mpr (by simp only [h, and_true, true_and]; decide)

theorem toList_mark_ne_nil
    (language : Language)
    (text : String) :
    (language.mark.apply text).toList ≠ [] := by
  intro hnil
  have hmem := language.underscore_mem_mark text
  rw [hnil] at hmem
  cases hmem

/-- A mark in front hides a digit, and a mark behind does not. -/
theorem beginsWithDigit_mark
    (language : Language)
    {text : String}
    (hne : text.toList ≠ []) :
    BeginsWithDigit (language.mark.apply text) ↔ BeginsWithDigit text ∧ language = .swift := by
  obtain ⟨c, rest, htext⟩ := List.exists_cons_of_ne_nil hne
  cases language <;>
    simp [BeginsWithDigit, Language.mark, Mark.apply, String.toList_append, htext]

theorem not_beginsWithDigit_of_isReserved
    {word : String}
    (h : language.isReserved word = true) :
    ¬ BeginsWithDigit word := by
  have hall : (language.reserved.all fun word => !word.toList.head?.any Char.isDigit) = true := by
    cases language <;> decide +kernel
  rw [Language.isReserved, List.contains_eq_mem, decide_eq_true_eq] at h
  simpa [BeginsWithDigit] using List.all_eq_true.mp hall word h

theorem toList_spell_ne_nil
    (language : Language)
    {text : String}
    (hne : text.toList ≠ []) :
    (language.spell text).toList ≠ [] := by
  unfold Language.spell
  split
  · exact toList_mark_ne_nil language text
  · exact hne

/-- A reserved word begins with a letter, and what is not reserved is left as it is. -/
theorem beginsWithDigit_spell
    (language : Language)
    {text : String}
    (hne : text.toList ≠ []) :
    BeginsWithDigit (language.spell text) ↔ BeginsWithDigit text := by
  unfold Language.spell
  split
  next hreserved =>
    have hfirst := not_beginsWithDigit_of_isReserved hreserved
    rw [beginsWithDigit_mark language hne]
    simp [hfirst]
  · exact Iff.rfl

/-- A name without letters and digits hides none, and begins with an underscore. -/
theorem beginsWithDigit_of_find?_eq_none
    (hne : name.toList ≠ [])
    (hnone : name.toList.find? (·.isAlphanum) = none) :
    BeginsWithDigit name ↔ HidesDigit name := by
  obtain ⟨c, rest, hname⟩ := List.exists_cons_of_ne_nil hne
  have hc := List.find?_eq_none.mp hnone c (hname ▸ List.mem_cons_self)
  have hdigit : c.isDigit = false := by
    simp only [Char.isAlphanum, Bool.or_eq_true, not_or, Bool.not_eq_true] at hc
    exact hc.2
  simp [BeginsWithDigit, HidesDigit, hname ▸ hnone, hname, hdigit]

theorem beginsWithDigit_apply
    (casing : Casing)
    (h : IsIdentText name) :
    BeginsWithDigit (casing.apply name) ↔ HidesDigit name := by
  rw [BeginsWithDigit, HidesDigit, head?_apply casing h]
  cases hfind : name.toList.find? (·.isAlphanum) with
  | none =>
      rfl
  | some c =>
      rw [Option.map_some, Option.any_some, Option.any_some,
        casing.isDigit_initial (List.find?_some hfind)]

/-- Natural spellings are texts of identifiers, and begin with a digit when the name hides one. -/
theorem natural_of_isMemberName
    (language : Language)
    (casing : Casing)
    (h : IsMemberName name) :
    (language.natural casing name).toList ≠ [] ∧ IsIdentText (language.natural casing name) ∧
      (BeginsWithDigit (language.natural casing name) ↔ HidesDigit name) := by
  rw [Language.natural]
  split
  next hempty =>
    have hnone : name.toList.find? (·.isAlphanum) = none := by
      have hnil : casing.apply name = "" := by
        simpa using hempty
      simpa [hnil] using head?_apply casing h.isIdentText
    refine ⟨toList_spell_ne_nil language h.toList_ne_nil,
      isIdentText_spell language h.isIdentText, ?_⟩
    rw [beginsWithDigit_spell language h.toList_ne_nil,
      beginsWithDigit_of_find?_eq_none h.toList_ne_nil hnone]
  next hempty =>
    have hne : (casing.apply name).toList ≠ [] := by
      intro hnil
      exact hempty (by simpa using hnil)
    refine ⟨toList_spell_ne_nil language hne,
      isIdentText_spell language (isIdentText_apply casing h.isIdentText), ?_⟩
    rw [beginsWithDigit_spell language hne, beginsWithDigit_apply casing h.isIdentText]

theorem marks_of_natural
    (language : Language)
    {text : String}
    (hne : text.toList ≠ [])
    (htext : IsIdentText text)
    (n : Nat) :
    (language.mark.apply^[n + 1] text).toList ≠ [] ∧
      IsIdentText (language.mark.apply^[n + 1] text) ∧
      (BeginsWithDigit (language.mark.apply^[n + 1] text) ↔
        BeginsWithDigit text ∧ language = .swift) := by
  induction n with
  | zero =>
      exact ⟨toList_mark_ne_nil language text, isIdentText_mark language htext,
        beginsWithDigit_mark language hne⟩
  | succ n ih =>
      obtain ⟨hne', htext', hdigit⟩ := ih
      rw [Function.iterate_succ_apply']
      refine ⟨toList_mark_ne_nil language _, isIdentText_mark language htext', ?_⟩
      rw [beginsWithDigit_mark language hne', hdigit, and_assoc, and_self]

/-- The name at a place among its siblings has its natural spelling, unless an earlier one has it;
then it has marks. -/
theorem spellAll_cases
    (language : Language)
    (casing : Casing)
    {names : List String}
    {i : Nat}
    (hi : names[i]? = some name) :
    ∃ ident, (language.spellAll casing names)[i]? = some ident ∧
      ((language.natural casing name ∉ (names.take i).map (language.natural casing) ∧
          ident = language.natural casing name) ∨
        (language.natural casing name ∈ (names.take i).map (language.natural casing) ∧
          ∃ n, ident = language.mark.apply^[n + 1] (language.natural casing name))) := by
  have hapart := language.spellAll_apart casing names
  have hnatural : (names.map (language.natural casing))[i]? =
      some (language.natural casing name) := by
    rw [List.getElem?_map, hi, Option.map_some]
  rw [List.map_take]
  by_cases hold : language.natural casing name ∈ (names.map (language.natural casing)).take i
  · obtain ⟨n, hident, -⟩ := hapart.later i _ hnatural hold
    exact ⟨_, hident, .inr ⟨hold, n, rfl⟩⟩
  · exact ⟨_, hapart.first i _ hnatural hold, .inl ⟨hold, rfl⟩⟩

/-- The spelling of the name at a place among its siblings: not empty, of characters of identifiers,
and beginning with a digit when the name hides one and no mark stands in front. -/
theorem spellAll_getElem?
    (language : Language)
    (casing : Casing)
    {names : List String}
    (hnames : ∀ name ∈ names, IsMemberName name)
    {i : Nat}
    (hi : names[i]? = some name) :
    ∃ ident, (language.spellAll casing names)[i]? = some ident ∧
      ident.toList ≠ [] ∧ IsIdentText ident ∧
      (BeginsWithDigit ident ↔ HidesDigit name ∧
        (language = .swift ∨
          language.natural casing name ∉ (names.take i).map (language.natural casing))) := by
  obtain ⟨hne, htext, hdigit⟩ :=
    natural_of_isMemberName language casing (hnames name (List.mem_of_getElem? hi))
  obtain ⟨ident, hident, ⟨hnew, rfl⟩ | ⟨hold, n, rfl⟩⟩ := spellAll_cases language casing hi
  · refine ⟨_, hident, hne, htext, ?_⟩
    rw [hdigit, and_iff_left (Or.inr hnew)]
  · obtain ⟨hne', htext', hdigit'⟩ := marks_of_natural language hne htext n
    refine ⟨_, hident, hne', htext', ?_⟩
    rw [hdigit', hdigit, or_iff_left (not_not_intro hold)]

theorem mem_spellAll
    {names : List String}
    (hident : ident ∈ language.spellAll casing names) :
    ∃ (i : Nat) (name : String), names[i]? = some name ∧
      (language.spellAll casing names)[i]? = some ident := by
  obtain ⟨i, hi, rfl⟩ := List.getElem_of_mem hident
  rw [Language.length_spellAll] at hi
  exact ⟨i, names[i], List.getElem?_eq_getElem hi,
    List.getElem?_eq_getElem (by rwa [Language.length_spellAll])⟩

/-- The first of the names that are spelled alike keeps their spelling. -/
theorem natural_mem_spellAll
    (language : Language)
    (casing : Casing)
    {names : List String}
    (hname : name ∈ names) :
    language.natural casing name ∈ language.spellAll casing names := by
  have hmem := (Language.settlesAll_distinguishAll language (names.map (language.natural casing)) []
    (names.map (language.natural casing))).candidate_mem (List.mem_map_of_mem hname)
  rwa [List.append_nil] at hmem

theorem forall_isLegal_iff
    (language : Language)
    (casing : Casing)
    {names : List String}
    (hnames : ∀ name ∈ names, IsMemberName name) :
    (∀ ident ∈ language.spellAll casing names, IsLegal language ident) ↔
      ∀ name ∈ names, ¬ HidesDigit name := by
  have hfree := (language.spellAll_apart casing names).free
  constructor
  · intro hlegal name hname
    have hmem := natural_mem_spellAll language casing hname
    obtain ⟨hne, htext, hdigit⟩ := natural_of_isMemberName language casing (hnames name hname)
    rw [← hdigit, ← isLegal_iff hne htext (hfree _ hmem)]
    exact hlegal _ hmem
  · intro hnone ident hident
    obtain ⟨i, name, hi, hat⟩ := mem_spellAll hident
    obtain ⟨ident', hat', hne, htext, hdigit⟩ := spellAll_getElem? language casing hnames hi
    obtain rfl := Option.some.inj (hat.symm.trans hat')
    rw [isLegal_iff hne htext (hfree ident hident), hdigit]
    exact fun hhides => hnone name (List.mem_of_getElem? hi) hhides.1

end Legal

end Naming

namespace Emit

open Naming

/-- The identifiers of fields are the spellings of their names. -/
theorem map_ident_members
    (language : Language)
    (casing : Casing)
    (fields : List Field) :
    (members language casing fields).map (·.ident) =
      language.spellAll casing (fields.map (·.name)) := by
  have hlength := language.length_spellAll casing (fields.map (·.name))
  rw [List.length_map] at hlength
  rw [members, List.map_zipWith]
  refine List.ext_getElem (by simp [hlength]) fun i hi hi' => ?_
  simp

end Emit

open Naming in
/-- Which identifiers of siblings are legal.  None is empty or reserved, and none has other
characters than letters, digits and underscores.  An identifier begins with a digit exactly when the
first letter or digit of its name is one, and no mark is set in front of it, as it is for all but
the first of the names with one spelling, save in Swift.  So all are legal exactly when no name hides a
digit, and this goes for fields in particular. -/
theorem spellAll_legal
    (language : Language)
    (casing : Casing)
    {names : List String}
    (hnames : ∀ name ∈ names, IsMemberName name) :
    (∀ ident ∈ language.spellAll casing names,
        ident ≠ "" ∧ IsIdentText ident ∧ language.isReserved ident = false) ∧
      (∀ (i : Nat) (name : String), names[i]? = some name →
        ∃ ident, (language.spellAll casing names)[i]? = some ident ∧
          (IsLegal language ident ↔ ¬ (HidesDigit name ∧
            (language = .swift ∨
              language.natural casing name ∉
                (names.take i).map (language.natural casing))))) ∧
      ((∀ ident ∈ language.spellAll casing names, IsLegal language ident) ↔
        ∀ name ∈ names, ¬ HidesDigit name) ∧
      ∀ fields : List Field, fields.map (·.name) = names →
        ((∀ m ∈ Emit.members language casing fields, IsLegal language m.ident) ↔
          ∀ f ∈ fields, ¬ HidesDigit f.name) := by
  have hfree := (language.spellAll_apart casing names).free
  have hall := forall_isLegal_iff language casing hnames
  refine ⟨fun ident hident => ?_, fun i name hi => ?_, hall, ?_⟩
  · obtain ⟨i, name, hi, hat⟩ := mem_spellAll hident
    obtain ⟨ident', hat', hne, htext, -⟩ := spellAll_getElem? language casing hnames hi
    obtain rfl := Option.some.inj (hat.symm.trans hat')
    exact ⟨by simpa using hne, htext, hfree ident hident⟩
  · obtain ⟨ident, hat, hne, htext, hdigit⟩ := spellAll_getElem? language casing hnames hi
    refine ⟨ident, hat, ?_⟩
    rw [isLegal_iff hne htext (hfree ident (List.mem_of_getElem? hat)), hdigit]
  · rintro fields rfl
    rw [List.forall_mem_map, ← Emit.map_ident_members, List.forall_mem_map] at hall
    exact hall

open Naming in
/-- Three names with legal identifiers, of which one is marked. -/
theorem spellAll_legal_names :
    ∃ names : List String, (∀ name ∈ names, IsMemberName name) ∧
      Language.javascript.spellAll .lowerSnake names = ["user_id", "_class", "x1"] ∧
      ∀ ident ∈ Language.javascript.spellAll .lowerSnake names, IsLegal .javascript ident := by
  have hnames : ∀ name ∈ ["userId", "class", "_x1"], IsMemberName name := by
    decide
  refine ⟨_, hnames, by decide +kernel, ?_⟩
  exact (spellAll_legal .javascript .lowerSnake hnames).2.2.1.mpr (by decide)

open Naming in
/-- A name that is a digit but for an underscore in front has no legal identifier in any language,
in any casing. -/
theorem exists_illegal_ident :
    ∃ name, IsMemberName name ∧ ∀ (language : Language) (casing : Casing),
      ∃ ident ∈ language.spellAll casing [name], ¬ IsLegal language ident := by
  refine ⟨"_1", by decide, fun language casing => ⟨"1", ?_, ?_⟩⟩
  · cases language <;> cases casing <;> decide +kernel
  · rintro ⟨⟨c, rest, hident, hc⟩, -, -⟩
    obtain ⟨rfl, -⟩ := List.cons.inj hident
    exact absurd hc (by decide)

end Schemata
