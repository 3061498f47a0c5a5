import Schemata.Emit.Name
import Schemata.Proofs.Naming.Spelling
import Mathlib

/-!
# Which names are spelled alike

Names in generated code have no separators: a word shows where it begins by
its capital, and a word that begins with a digit has no capital to show.  So
the spelling of a name keeps its words up to this, `visibleWords`, and keeps
nothing else.  The words can be read back from the spelling by cutting it at
its capitals, which is what makes the statement exact.

Reserved words do not change this: a spelled name has no underscore, and the
mark that sets a reserved word apart is one.

**Results.**
* `upperCamel_eq_iff`, `typeIdent_eq_iff`: two names are spelled alike exactly
  when they have the same visible words.
* `upperCamel_of_isPlain`: a name without separators that begins with a
  capital is its own spelling.
-/

namespace Schemata
namespace Naming

section Characters

/-- A small letter or a digit of ASCII. -/
def isSmall
    (c : Char) :
    Bool :=
  c.isLower || c.isDigit

/-- A character of identifiers: a letter, a digit or an underscore. -/
def isIdentChar
    (c : Char) :
    Bool :=
  c.isAlphanum || c == '_'

/-- The text has characters of identifiers only. -/
def IsIdentText
    (text : String) : Prop :=
  ∀ c ∈ text.toList, isIdentChar c = true

instance (text : String) : Decidable (IsIdentText text) :=
  decidable_of_iff (text.toList.all isIdentChar = true) List.all_eq_true

theorem isIdentText_append
    (a b : String) :
    IsIdentText (a ++ b) ↔ IsIdentText a ∧ IsIdentText b := by
  simp [IsIdentText, String.toList_append, or_imp, forall_and]

/-- Texts that are joined by underscores. -/
theorem isIdentText_intercalate
    {texts : List String}
    (h : ∀ text ∈ texts, IsIdentText text) :
    IsIdentText (String.intercalate "_" texts) := by
  intro c hc
  rw [String.toList_intercalate] at hc
  induction texts with
  | nil =>
      cases hc
  | cons first rest ih =>
      have hfirst := h first List.mem_cons_self
      have hrest := ih fun text htext => h text (List.mem_cons_of_mem first htext)
      cases rest with
      | nil =>
          exact hfirst c (by simpa using hc)
      | cons second rest =>
          rw [List.map_cons, List.map_cons, List.intercalate_cons_cons, List.mem_append,
            List.mem_append] at hc
          rcases hc with (hc | hc) | hc
          · exact hfirst c hc
          · rw [List.mem_singleton.mp hc]
            rfl
          · exact hrest hc

theorem IsIdentText.dot_not_mem
    {text : String}
    (h : IsIdentText text) :
    '.' ∉ text.toList := by
  intro hdot
  exact absurd (h '.' hdot) (by decide)

theorem isIdentText_toString
    (n : Nat) :
    IsIdentText (toString n) := by
  intro c hc
  have hdigit := Nat.isDigit_of_mem_toDigits (by decide) (by decide) (Nat.toList_repr ▸ hc)
  simp [isIdentChar, Char.isAlphanum, hdigit]

/-- What holds of those of the first 128 characters that have a property holds of all characters
below 128 that have it. -/
theorem forall_ascii
    (property : Char → Bool)
    {P : Char → Prop}
    (h : ∀ n : Fin 128, property (Char.ofNat n) = true → P (Char.ofNat n))
    {c : Char}
    (hlt : c.toNat < 128)
    (hc : property c = true) :
    P c := by
  have hof := h ⟨c.toNat, hlt⟩
  simp only [Char.ofNat_toNat] at hof
  exact hof hc

theorem toNat_lt_of_isAlphanum
    {c : Char}
    (h : c.isAlphanum = true) :
    c.toNat < 128 := by
  have hZ : 'Z'.val.toNat = 90 := rfl
  have hz : 'z'.val.toNat = 122 := rfl
  have h9 : '9'.val.toNat = 57 := rfl
  have hc : c.toNat = c.val.toNat := rfl
  simp only [Char.isAlphanum, Char.isAlpha, Char.isUpper, Char.isLower, Char.isDigit,
    Bool.or_eq_true, Bool.and_eq_true, decide_eq_true_eq, UInt32.le_iff_toNat_le] at h
  omega

/-- What the case mappings do to a letter or digit of ASCII. -/
@[mk_iff] structure AsciiCase
    (c : Char) : Prop where
  smallLower : isSmall c.toLower = true
  upperOfLower : c.isUpper = true → c.toLower.toUpper = c
  lowerOfOther : c.isUpper = false → c.toLower = c
  notUnderscore : c ≠ '_'
  notDot : c ≠ '.'

/-- What the case mappings do to a small letter or digit of ASCII. -/
@[mk_iff] structure SmallCase
    (c : Char) : Prop where
  alphanumeric : Text.isAlphanumeric c = true
  alphanum : c.isAlphanum = true
  notCapital : Text.isUppercase c = false
  notUpper : c.isUpper = false
  lower : Text.toLowercase c = [c]
  notSigma : c ≠ '\u03a3'
  upper : Text.toUppercase c = [c.toUpper]
  toLower : c.toLower = c
  upperAlphanum : c.toUpper.isAlphanum = true
  upperNotLower : c.toUpper.isLower = false
  ofLetter : c.isLower = true → c.toUpper.isUpper = true ∧ c.toUpper.toLower = c
  ofDigit : c.isLower = false → c.toUpper = c

instance (c : Char) : Decidable (AsciiCase c) :=
  decidable_of_iff _ (asciiCase_iff c).symm

instance (c : Char) : Decidable (SmallCase c) :=
  decidable_of_iff _ (smallCase_iff c).symm

theorem AsciiCase.of_isAlphanum
    {c : Char}
    (h : c.isAlphanum = true) :
    AsciiCase c := by
  have hascii : ∀ n : Fin 128, (Char.ofNat n).isAlphanum = true → AsciiCase (Char.ofNat n) := by
    decide +kernel
  exact forall_ascii Char.isAlphanum hascii (toNat_lt_of_isAlphanum h) h

theorem SmallCase.of_isSmall
    {c : Char}
    (h : isSmall c = true) :
    SmallCase c := by
  have hascii : ∀ n : Fin 128, isSmall (Char.ofNat n) = true → SmallCase (Char.ofNat n) := by
    decide +kernel
  have halphanum : c.isAlphanum = true := by
    simp only [isSmall, Bool.or_eq_true] at h
    rcases h with h | h
    · simp [Char.isAlphanum, Char.isAlpha, h]
    · simp [Char.isAlphanum, h]
  exact forall_ascii isSmall hascii (toNat_lt_of_isAlphanum halphanum) h

end Characters

section Words

/-- A word as `words` cuts names: small letters and digits, at least one. -/
def IsWord
    (w : List Char) :
    Prop :=
  w ≠ [] ∧ ∀ c ∈ w, isSmall c = true

theorem mem_closeWord
    {current : List Char}
    {rest : List (List Char)}
    {w : List Char}
    (hw : w ∈ closeWord current rest) :
    (w = current ∧ current ≠ []) ∨ w ∈ rest := by
  unfold closeWord at hw
  split at hw
  · exact .inr hw
  · rcases List.mem_cons.mp hw with rfl | hw
    · exact .inl ⟨rfl, by simp_all⟩
    · exact .inr hw

theorem isWord_of_mem_wordsFrom
    {screaming : Bool}
    {current cs : List Char}
    (hcurrent : ∀ c ∈ current, isSmall c = true)
    {w : List Char}
    (hw : w ∈ wordsFrom screaming current cs) :
    IsWord w := by
  induction cs generalizing current with
  | nil =>
      obtain ⟨rfl, hne⟩ | hw := mem_closeWord hw
      · exact ⟨hne, hcurrent⟩
      · cases hw
  | cons c cs ih =>
      have hclose : ∀ {next : List Char}, (∀ c ∈ next, isSmall c = true) →
          w ∈ closeWord current (wordsFrom screaming next cs) → IsWord w := by
        intro next hnext hw
        obtain ⟨rfl, hne⟩ | hw := mem_closeWord hw
        · exact ⟨hne, hcurrent⟩
        · exact ih hnext hw
      simp only [wordsFrom] at hw
      split at hw
      case isTrue halphanum =>
        have hsmall := (AsciiCase.of_isAlphanum halphanum).smallLower
        split at hw
        · exact hclose (by simpa using hsmall) hw
        · refine ih (fun d hd => ?_) hw
          rcases List.mem_append.mp hd with hd | hd
          · exact hcurrent d hd
          · rw [List.mem_singleton.mp hd]
            exact hsmall
      case isFalse =>
        exact hclose (by simp) hw

/-- The words of a name, as lists of characters. -/
def wordLists
    (name : String) :
    List (List Char) :=
  wordsFrom (isScreaming name.toList) [] name.toList

theorem map_toList_words
    (name : String) :
    (words name).map String.toList = wordLists name := by
  simp [words, wordLists, Function.comp_def]

theorem isWord_of_mem_wordLists
    {name : String}
    {w : List Char}
    (hw : w ∈ wordLists name) :
    IsWord w :=
  isWord_of_mem_wordsFrom (by simp) hw

/-- In a name without underscores, capitals begin words. -/
theorem wordLists_of_isAlphanum
    {name : String}
    (h : ∀ c ∈ name.toList, c.isAlphanum = true) :
    wordLists name = wordsFrom false [] name.toList := by
  have hmem : '_' ∉ name.toList := fun hmem =>
    (AsciiCase.of_isAlphanum (h '_' hmem)).notUnderscore rfl
  have hscreaming : isScreaming name.toList = false := by
    simp [isScreaming, hmem]
  rw [wordLists, hscreaming]

end Words

section Spelling

/-- A word with a capital. -/
def capital : List Char → List Char
  | [] => []
  | c :: cs => c.toUpper :: cs

theorem lowerWord_eq
    {w : List Char}
    (hw : ∀ c ∈ w, isSmall c = true) :
    lowerWord w = w := by
  induction w with
  | nil =>
      rfl
  | cons c cs ih =>
      have hc := SmallCase.of_isSmall (hw c List.mem_cons_self)
      have hcs := ih fun d hd => hw d (List.mem_cons_of_mem c hd)
      cases cs with
      | nil => simp [lowerWord, hc.notSigma, hc.lower]
      | cons d cs => simp [lowerWord, hc.lower, hcs]

theorem capitalWord_eq
    {w : List Char}
    (hw : IsWord w) :
    capitalWord w = capital w := by
  cases w with
  | nil =>
      rfl
  | cons c cs =>
      have hc := SmallCase.of_isSmall (hw.2 c List.mem_cons_self)
      have hcs := lowerWord_eq fun d hd => hw.2 d (List.mem_cons_of_mem c hd)
      simp [capitalWord, capital, hc.upper, hcs]

/-- Without capitals there is nothing to cut at. -/
theorem pieceWords_eq
    (mode : CaseMode)
    (current : List Char)
    {w : List Char}
    (hw : IsWord w) :
    pieceWords mode current w = [current ++ w] := by
  obtain ⟨hne, hsmall⟩ := hw
  induction w generalizing mode current with
  | nil =>
      exact absurd rfl hne
  | cons c cs ih =>
      cases cs with
      | nil =>
          rfl
      | cons d cs =>
          have hc := SmallCase.of_isSmall (hsmall c List.mem_cons_self)
          have hd := SmallCase.of_isSmall (hsmall d (List.mem_cons_of_mem c List.mem_cons_self))
          have hrest := ih (mode.next c) (current ++ [c]) (by simp)
            fun e he => hsmall e (List.mem_cons_of_mem c he)
          simp [pieceWords, hc.notCapital, hd.notCapital, hrest]

theorem splitWhen_eq_splitOnP
    (sep : Char → Bool)
    (cs : List Char) :
    Text.splitWhen sep cs = cs.splitOnP sep := by
  induction cs with
  | nil =>
      rfl
  | cons c cs ih =>
      rw [Text.splitWhen, ih, List.splitOnP_cons_eq_if_modifyHead]
      split
      · rfl
      · obtain ⟨piece, pieces, hpieces⟩ := List.exists_cons_of_ne_nil (List.splitOnP_ne_nil sep cs)
        rw [hpieces]
        rfl

/-- Words that are joined by underscores are found again, where nothing tells to cut inside them. -/
theorem casedWords_joinSnake_of_whole
    {ws : List (List Char)}
    (hinside : ∀ w ∈ ws, ∀ c ∈ w, Text.isAlphanumeric c = true)
    (hwhole : ∀ w ∈ ws, pieceWords .none [] w = [w]) :
    casedWords (joinSnake ws) = ws := by
  rw [casedWords, splitWhen_eq_splitOnP]
  induction ws with
  | nil =>
      rfl
  | cons w ws ih =>
      have hw : ∀ c ∈ w, (!Text.isAlphanumeric c) = false := fun c hc => by
        simp [hinside w List.mem_cons_self c hc]
      have hpiece := hwhole w List.mem_cons_self
      cases ws with
      | nil =>
          have hsplit := List.splitOnP_eq_singleton hw
          simp [joinSnake, hsplit, hpiece]
      | cons v ws =>
          have hrest := ih (fun u hu => hinside u (List.mem_cons_of_mem w hu))
            fun u hu => hwhole u (List.mem_cons_of_mem w hu)
          have hsplit := List.splitOnP_append_cons_of_forall_mem hw '_' (by decide)
            (joinSnake (v :: ws))
          simp only [joinSnake, List.intersperse_cons_cons, List.flatten_cons,
            List.singleton_append] at hsplit hrest ⊢
          rw [hsplit, List.flatMap_cons, hpiece, hrest]
          rfl

/-- Words in small letters are found again. -/
theorem casedWords_joinSnake
    {ws : List (List Char)}
    (hws : ∀ w ∈ ws, IsWord w) :
    casedWords (joinSnake ws) = ws :=
  casedWords_joinSnake_of_whole
    (fun w hw c hc => (SmallCase.of_isSmall ((hws w hw).2 c hc)).alphanumeric)
    fun w hw => pieceWords_eq .none [] (hws w hw)

theorem camelWords_eq
    (name : String) :
    Casing.camelWords name = wordLists name := by
  rw [Casing.camelWords, map_toList_words]
  exact casedWords_joinSnake fun w hw => isWord_of_mem_wordLists hw

/-- Each word with a capital, one after the other. -/
theorem toList_upperCamel
    (name : String) :
    (Casing.upperCamel.apply name).toList = (wordLists name).flatMap capital := by
  simp only [Casing.apply, camelWords_eq, String.toList_ofList]
  exact List.flatMap_congr fun w hw => capitalWord_eq (isWord_of_mem_wordLists hw)

end Spelling

section Visible

/-- The word begins with a letter. -/
def beginsWithLetter : List Char → Bool
  | [] => false
  | c :: _ => c.isLower

/-- The words of which a reader sees the beginning: a word that begins with a digit is joined to
the word before it.  `current` is the word before. -/
def joinDigits : List Char → List (List Char) → List (List Char)
  | current, [] => closeWord current []
  | current, w :: ws =>
      if beginsWithLetter w then closeWord current (joinDigits w ws)
      else joinDigits (current ++ w) ws

/-- The words that can be told from the spelling of a name. -/
def visibleWords
    (name : String) :
    List (List Char) :=
  joinDigits [] (wordLists name)

/-- Two names have the same visible words. -/
def SameWords
    (a b : String) :
    Prop :=
  visibleWords a = visibleWords b
deriving Decidable

theorem capital_append
    {current w : List Char}
    (hw : IsWord w)
    (hdigit : beginsWithLetter w = false) :
    capital (current ++ w) = capital current ++ capital w := by
  cases current with
  | nil =>
      rfl
  | cons c cs =>
      cases w with
      | nil =>
          simp [capital]
      | cons d ds =>
          have hd := (SmallCase.of_isSmall (hw.2 d List.mem_cons_self)).ofDigit hdigit
          simp [capital, hd]

theorem flatMap_closeWord
    (current : List Char)
    (rest : List (List Char)) :
    (closeWord current rest).flatMap capital = capital current ++ rest.flatMap capital := by
  cases current with
  | nil => rfl
  | cons c cs => rfl

/-- Joining words leaves their spelling as it is. -/
theorem flatMap_joinDigits
    (current : List Char)
    {ws : List (List Char)}
    (hws : ∀ w ∈ ws, IsWord w) :
    (joinDigits current ws).flatMap capital = capital current ++ ws.flatMap capital := by
  induction ws generalizing current with
  | nil =>
      exact flatMap_closeWord current []
  | cons w ws ih =>
      have hrest := fun current => ih current fun v hv => hws v (List.mem_cons_of_mem w hv)
      rw [joinDigits]
      split
      · rw [flatMap_closeWord, hrest, List.flatMap_cons]
      next hletter =>
        have hdigit : beginsWithLetter w = false := by
          simpa using hletter
        rw [hrest, capital_append (hws w List.mem_cons_self) hdigit, List.flatMap_cons,
          List.append_assoc]

/-- Small letters and digits go on with the word that is being read. -/
theorem wordsFrom_append
    (current : List Char)
    {w : List Char}
    (hw : ∀ c ∈ w, isSmall c = true)
    (cs : List Char) :
    wordsFrom false current (w ++ cs) = wordsFrom false (current ++ w) cs := by
  induction w generalizing current with
  | nil =>
      simp
  | cons c w ih =>
      have hc := SmallCase.of_isSmall (hw c List.mem_cons_self)
      have hrest := ih (current ++ [c]) fun d hd => hw d (List.mem_cons_of_mem c hd)
      simp [wordsFrom, hc.alphanum, hc.notUpper, hc.toLower, hrest]

/-- The visible words are read back from their spelling. -/
theorem wordsFrom_flatMap_capital
    (current : List Char)
    {ws : List (List Char)}
    (hws : ∀ w ∈ ws, IsWord w) :
    wordsFrom false current (ws.flatMap capital) = joinDigits current ws := by
  induction ws generalizing current with
  | nil =>
      rfl
  | cons w ws ih =>
      have hrest := fun current => ih current fun v hv => hws v (List.mem_cons_of_mem w hv)
      obtain ⟨hne, hsmall⟩ := hws w List.mem_cons_self
      obtain ⟨c, cs, rfl⟩ := List.exists_cons_of_ne_nil hne
      have hc := SmallCase.of_isSmall (hsmall c List.mem_cons_self)
      have hcs : ∀ d ∈ cs, isSmall d = true := fun d hd => hsmall d (List.mem_cons_of_mem c hd)
      cases hletter : c.isLower with
      | true =>
          obtain ⟨hupper, hback⟩ := hc.ofLetter hletter
          simp only [List.flatMap_cons, capital, List.cons_append, wordsFrom, hc.upperAlphanum,
            hupper, hback, wordsFrom_append _ hcs, hrest, joinDigits, beginsWithLetter, hletter]
          rfl
      | false =>
          have hdigit := hc.ofDigit hletter
          simp [capital, wordsFrom, hdigit, hc.alphanum, hc.notUpper, hc.toLower,
            wordsFrom_append _ hcs, hrest, joinDigits, beginsWithLetter, hletter]

theorem visibleWords_eq
    (name : String) :
    visibleWords name = wordsFrom false [] (Casing.upperCamel.apply name).toList := by
  rw [toList_upperCamel, visibleWords,
    wordsFrom_flatMap_capital [] fun w hw => isWord_of_mem_wordLists hw]

/-- The spelling of a name is that of its visible words. -/
theorem upperCamel_eq
    (name : String) :
    Casing.upperCamel.apply name = String.ofList ((visibleWords name).flatMap capital) := by
  rw [visibleWords, flatMap_joinDigits [] fun w hw => isWord_of_mem_wordLists hw, capital,
    List.nil_append, ← toList_upperCamel, String.ofList_toList]

/-- Lists of names are spelled alike exactly when they have the same visible words. -/
theorem map_upperCamel_eq_iff
    (as bs : List String) :
    as.map Casing.upperCamel.apply = bs.map Casing.upperCamel.apply ↔
      as.map visibleWords = bs.map visibleWords := by
  constructor
  · intro h
    have hread := congrArg (List.map fun text : String => wordsFrom false [] text.toList) h
    simpa only [List.map_map, Function.comp_def, ← visibleWords_eq] using hread
  · intro h
    have hspelled := congrArg (List.map fun ws => String.ofList (ws.flatMap capital)) h
    simpa only [List.map_map, Function.comp_def, ← upperCamel_eq] using hspelled

/-- Two names are spelled alike exactly when they have the same visible words. -/
theorem upperCamel_eq_iff
    (a b : String) :
    Casing.upperCamel.apply a = Casing.upperCamel.apply b ↔ SameWords a b := by
  simpa [SameWords] using map_upperCamel_eq_iff [a] [b]

end Visible

section Identifiers

theorem isAlphanum_of_mem_capital
    {w : List Char}
    (hw : IsWord w)
    {c : Char}
    (hc : c ∈ capital w) :
    c.isAlphanum = true := by
  obtain ⟨d, ds, rfl⟩ := List.exists_cons_of_ne_nil hw.1
  rcases List.mem_cons.mp hc with rfl | hc
  · exact (SmallCase.of_isSmall (hw.2 d List.mem_cons_self)).upperAlphanum
  · exact (SmallCase.of_isSmall (hw.2 c (List.mem_cons_of_mem d hc))).alphanum

theorem isAlphanum_of_mem_upperCamel
    {name : String}
    {c : Char}
    (hc : c ∈ (Casing.upperCamel.apply name).toList) :
    c.isAlphanum = true := by
  rw [toList_upperCamel] at hc
  obtain ⟨w, hw, hc⟩ := List.mem_flatMap.mp hc
  exact isAlphanum_of_mem_capital (isWord_of_mem_wordLists hw) hc

/-- A spelled name does not begin with a small letter. -/
theorem not_isLower_of_head?_upperCamel
    {name : String}
    {c : Char}
    (hc : (Casing.upperCamel.apply name).toList.head? = some c) :
    c.isLower = false := by
  rw [toList_upperCamel] at hc
  cases hws : wordLists name with
  | nil =>
      rw [hws] at hc
      cases hc
  | cons w ws =>
      obtain ⟨hne, hsmall⟩ := isWord_of_mem_wordLists (hws ▸ List.mem_cons_self)
      obtain ⟨d, ds, rfl⟩ := List.exists_cons_of_ne_nil hne
      rw [hws] at hc
      obtain rfl := Option.some.inj hc
      exact (SmallCase.of_isSmall (hsmall d List.mem_cons_self)).upperNotLower

/-- Marking a name if it is reserved confuses no two names without underscores. -/
theorem spell_eq_iff
    (language : Language)
    {a b : String}
    (ha : '_' ∉ a.toList)
    (hb : '_' ∉ b.toList) :
    language.spell a = language.spell b ↔ a = b := by
  have hinj : ∀ {a b}, language.mark.apply a = language.mark.apply b → a = b := by
    intro a b h
    rw [← String.toList_inj] at h ⊢
    cases language <;> simpa [Language.mark, Mark.apply] using h
  refine ⟨fun h => ?_, fun h => h ▸ rfl⟩
  unfold Language.spell at h
  split at h <;> split at h
  · exact hinj h
  · exact absurd (language.underscore_mem_mark a) (h ▸ hb)
  · exact absurd (language.underscore_mem_mark b) (h ▸ ha)
  · exact h

theorem underscore_not_mem_upperCamel
    (name : String) :
    '_' ∉ (Casing.upperCamel.apply name).toList := by
  intro hmem
  exact (AsciiCase.of_isAlphanum (isAlphanum_of_mem_upperCamel hmem)).notUnderscore rfl

theorem isIdentText_upperCamel
    (name : String) :
    IsIdentText (Casing.upperCamel.apply name) := by
  intro c hc
  simp [isIdentChar, isAlphanum_of_mem_upperCamel hc]

theorem isIdentText_spell
    (language : Language)
    {text : String}
    (h : IsIdentText text) :
    IsIdentText (language.spell text) := by
  unfold Language.spell
  split
  · cases language <;>
      exact (isIdentText_append _ _).mpr (by simp only [h, and_true, true_and]; decide)
  · exact h

end Identifiers

section Plain

/-- A capital, then letters and digits: the usual form of the name of a declaration. -/
def isPlain
    (name : String) :
    Bool :=
  match name.toList with
  | [] => false
  | c :: cs => c.isUpper && cs.all (·.isAlphanum)

/-- Words that are cut at capitals alone are put together again. -/
theorem flatMap_capital_wordsFrom
    {current : List Char}
    (hcurrent : current ≠ [])
    {cs : List Char}
    (hcs : ∀ c ∈ cs, c.isAlphanum = true) :
    (wordsFrom false current cs).flatMap capital = capital current ++ cs := by
  induction cs generalizing current with
  | nil =>
      simp [wordsFrom, flatMap_closeWord]
  | cons c cs ih =>
      have hc := hcs c List.mem_cons_self
      have hrest : ∀ {current : List Char}, current ≠ [] →
          (wordsFrom false current cs).flatMap capital = capital current ++ cs :=
        fun h => ih h fun d hd => hcs d (List.mem_cons_of_mem c hd)
      cases hupper : c.isUpper with
      | true =>
          have hback := (AsciiCase.of_isAlphanum hc).upperOfLower hupper
          simp [wordsFrom, hc, hupper, flatMap_closeWord, hrest, capital, hback]
      | false =>
          have hlower := (AsciiCase.of_isAlphanum hc).lowerOfOther hupper
          obtain ⟨d, ds, rfl⟩ := List.exists_cons_of_ne_nil hcurrent
          simp [wordsFrom, hc, hupper, hrest, capital, hlower]

/-- A plain name is its own spelling. -/
theorem upperCamel_of_isPlain
    {name : String}
    (hplain : isPlain name = true) :
    Casing.upperCamel.apply name = name := by
  unfold isPlain at hplain
  split at hplain
  · cases hplain
  next c cs hname =>
    rw [Bool.and_eq_true, List.all_eq_true] at hplain
    obtain ⟨hupper, hcs⟩ := hplain
    have hc : c.isAlphanum = true := by
      simp [Char.isAlphanum, Char.isAlpha, hupper]
    have hname' : ∀ d ∈ name.toList, d.isAlphanum = true := by
      rw [hname]
      exact List.forall_mem_cons.mpr ⟨hc, hcs⟩
    have hback := (AsciiCase.of_isAlphanum hc).upperOfLower hupper
    rw [← String.toList_inj, toList_upperCamel, wordLists_of_isAlphanum hname', hname]
    simp [wordsFrom, hc, hupper, closeWord, flatMap_capital_wordsFrom _ hcs, capital, hback]

/-- Plain names with the same words are the same. -/
theorem SameWords.eq_of_isPlain
    {a b : String}
    (h : SameWords a b)
    (ha : isPlain a = true)
    (hb : isPlain b = true) :
    a = b := by
  rw [← upperCamel_eq_iff, upperCamel_of_isPlain ha, upperCamel_of_isPlain hb] at h
  exact h

end Plain

end Naming

namespace Emit

open Naming (Language SameWords)

/-- Two declarations have one identifier exactly when their names have the same visible words. -/
theorem typeIdent_eq_iff
    (language : Language)
    (a b : String) :
    typeIdent language a = typeIdent language b ↔ SameWords a b := by
  rw [typeIdent, typeIdent, Naming.spell_eq_iff language
    (Naming.underscore_not_mem_upperCamel a) (Naming.underscore_not_mem_upperCamel b),
    Naming.upperCamel_eq_iff]

theorem isIdentText_typeIdent
    (language : Language)
    (name : String) :
    Naming.IsIdentText (typeIdent language name) :=
  Naming.isIdentText_spell language (Naming.isIdentText_upperCamel name)

end Emit
end Schemata
