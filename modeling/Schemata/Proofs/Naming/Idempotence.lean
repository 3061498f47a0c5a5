import Schemata.Proofs.Naming.Legal

/-!
# Spelling a name twice

A spelling is its own spelling.  In snake case the words of a spelling are those
that were joined: small letters and digits, or capitals and digits, give no
reason to cut between them.  In camel case a word that begins with a digit is
joined to the word before it, and from then on the capitals show where the words
begin, so that cutting the spelling and joining it again changes nothing.

Camel case keeps the letters and digits of ASCII only, and there this holds of
every name.  In snake case it needs an ASCII name.

**Results.** `upperCamel_upperCamel`, `lowerCamel_lowerCamel`, `apply_idempotent`.
-/

namespace Schemata
namespace Naming

section Snake

/-- Without small letters there is nothing to cut at. -/
theorem pieceWords_of_no_lower
    {mode : CaseMode}
    (hmode : mode ≠ .lower)
    (current : List Char)
    {w : List Char}
    (hne : w ≠ [])
    (hw : ∀ c ∈ w, Text.isLowercase c = false) :
    pieceWords mode current w = [current ++ w] := by
  induction w generalizing mode current with
  | nil =>
      exact absurd rfl hne
  | cons c cs ih =>
      cases cs with
      | nil =>
          rfl
      | cons d cs =>
          have hc := hw c List.mem_cons_self
          have hd := hw d (List.mem_cons_of_mem c List.mem_cons_self)
          have hnext : mode.next c ≠ .lower := by
            unfold CaseMode.next
            split_ifs <;> simp_all
          have hrest := ih hnext (current ++ [c]) (List.cons_ne_nil d cs)
            fun e he => hw e (List.mem_cons_of_mem c he)
          simp [pieceWords, hnext, hd, hrest]

/-- The spelling of a word is found as one word again, and spelled as it is. -/
structure Settled
    (spell : List Char → List Char)
    (w : List Char) : Prop where
  inside : ∀ c ∈ spell w, Text.isAlphanumeric c = true
  whole : pieceWords .none [] (spell w) = [spell w]
  again : spell (spell w) = spell w

/-- Where all words are settled, so is the name. -/
theorem joinSnake_settled
    {spell : List Char → List Char}
    {cs : List Char}
    (h : ∀ w ∈ casedWords cs, Settled spell w) :
    joinSnake ((casedWords (joinSnake ((casedWords cs).map spell))).map spell) =
      joinSnake ((casedWords cs).map spell) := by
  have hfound : casedWords (joinSnake ((casedWords cs).map spell)) = (casedWords cs).map spell := by
    refine casedWords_joinSnake_of_whole ?_ ?_
    · exact List.forall_mem_map.mpr fun w hw => (h w hw).inside
    · exact List.forall_mem_map.mpr fun w hw => (h w hw).whole
  have hagain : ((casedWords cs).map spell).map spell = (casedWords cs).map spell := by
    rw [List.map_map]
    exact List.map_congr_left fun w hw => (h w hw).again
  rw [hfound, hagain]

/-- A word of letters and digits of ASCII. -/
def IsAsciiWord
    (w : List Char) : Prop :=
  w ≠ [] ∧ ∀ c ∈ w, c.isAlphanum = true

theorem isAsciiWord_of_mem_casedWords
    {cs : List Char}
    (hascii : ∀ c ∈ cs, c.toNat < 128)
    {w : List Char}
    (hw : w ∈ casedWords cs) :
    IsAsciiWord w := by
  refine ⟨ne_nil_of_mem_casedWords hw, fun c hc => ?_⟩
  have hmem : c ∈ (casedWords cs).flatten := List.mem_flatten_of_mem hw hc
  rw [flatten_casedWords] at hmem
  obtain ⟨hmem, halphanumeric⟩ := List.mem_filter.mp hmem
  rwa [Text.isAlphanumeric, if_pos (hascii c hmem)] at halphanumeric

theorem settled_lowerWord
    {w : List Char}
    (hw : IsAsciiWord w) :
    Settled lowerWord w := by
  have hlower : lowerWord w = w.map Char.toLower :=
    lowerWord_eq_map fun c hc => isIdentChar_of_isAlphanum (hw.2 c hc)
  have hword : IsWord (lowerWord w) := by
    rw [hlower]
    refine ⟨by simpa using hw.1, List.forall_mem_map.mpr fun c hc => ?_⟩
    exact (AsciiCase.of_isAlphanum (hw.2 c hc)).smallLower
  exact ⟨fun c hc => (SmallCase.of_isSmall (hword.2 c hc)).alphanumeric,
    pieceWords_eq .none [] hword, lowerWord_eq hword.2⟩

/-- The capital of a letter or digit is one, and no small letter. -/
theorem capital_of_isAlphanum
    {c : Char}
    (h : c.isAlphanum = true) :
    c.toUpper.isAlphanum = true ∧ c.toUpper.isLower = false := by
  have hsmall := SmallCase.of_isSmall (AsciiCase.of_isAlphanum h).smallLower
  have hsame := (IdentCase.of_isIdentChar (isIdentChar_of_isAlphanum h)).upperOfLower
  rw [← hsame]
  exact ⟨hsmall.upperAlphanum, hsmall.upperNotLower⟩

theorem toUpper_of_not_isLower
    {c : Char}
    (h : c.isLower = false) :
    c.toUpper = c := by
  simp only [Char.isLower, Bool.and_eq_false_iff, decide_eq_false_iff_not] at h
  unfold Char.toUpper
  split
  next hrange => exact absurd hrange (by grind)
  next => rfl

theorem settled_upperWord
    {w : List Char}
    (hw : IsAsciiWord w) :
    Settled upperWord w := by
  have hupper : upperWord w = w.map Char.toUpper :=
    upperWord_eq_map fun c hc => isIdentChar_of_isAlphanum (hw.2 c hc)
  have hcapital : ∀ c ∈ upperWord w, c.isAlphanum = true ∧ c.isLower = false := by
    rw [hupper]
    exact List.forall_mem_map.mpr fun c hc => capital_of_isAlphanum (hw.2 c hc)
  have hascii : ∀ c ∈ upperWord w, c.toNat < 128 := fun c hc =>
    toNat_lt_of_isAlphanum (hcapital c hc).1
  refine ⟨fun c hc => ?_, ?_, ?_⟩
  · rw [Text.isAlphanumeric, if_pos (hascii c hc)]
    exact (hcapital c hc).1
  · refine pieceWords_of_no_lower (by decide) [] ?_ fun c hc => ?_
    · rw [hupper]
      simpa using hw.1
    · rw [Text.isLowercase, if_pos (hascii c hc)]
      exact (hcapital c hc).2
  · rw [upperWord_eq_map fun c hc => isIdentChar_of_isAlphanum (hcapital c hc).1]
    exact (List.map_congr_left fun c hc => toUpper_of_not_isLower (hcapital c hc).2).trans
      (List.map_id _)

end Snake

section Camel

variable {name : String}

theorem upperCamel_upperCamel
    (name : String) :
    Casing.upperCamel.apply (Casing.upperCamel.apply name) = Casing.upperCamel.apply name := by
  have hwords : wordLists (Casing.upperCamel.apply name) = visibleWords name := by
    rw [wordLists_of_isAlphanum fun c hc => isAlphanum_of_mem_upperCamel hc, visibleWords_eq]
  rw [← String.toList_inj, toList_upperCamel, hwords, upperCamel_eq name, String.toList_ofList]

/-- The words of a name with a capital on each but the first, one after the other. -/
def camel : List (List Char) → List Char
  | [] => []
  | first :: rest => first ++ rest.flatMap capital

theorem toList_lowerCamel
    (name : String) :
    (Casing.lowerCamel.apply name).toList = camel (wordLists name) := by
  rw [Casing.apply, String.toList_ofList, camelWords_eq]
  have hwords : ∀ w ∈ wordLists name, IsWord w := fun w hw => isWord_of_mem_wordLists hw
  cases hws : wordLists name with
  | nil =>
      rfl
  | cons first rest =>
      rw [hws] at hwords
      have hfirst := lowerWord_eq (hwords first List.mem_cons_self).2
      have hrest : rest.flatMap capitalWord = rest.flatMap capital :=
        List.flatMap_congr fun w hw => capitalWord_eq (hwords w (List.mem_cons_of_mem first hw))
      dsimp only
      rw [hfirst, hrest, camel]

/-- The two camel cases differ in the first character. -/
theorem toList_upperCamel_eq_capital
    (name : String) :
    (Casing.upperCamel.apply name).toList = capital (Casing.lowerCamel.apply name).toList := by
  rw [toList_upperCamel, toList_lowerCamel]
  have hwords : ∀ w ∈ wordLists name, IsWord w := fun w hw => isWord_of_mem_wordLists hw
  cases hws : wordLists name with
  | nil =>
      rfl
  | cons first rest =>
      rw [hws] at hwords
      obtain ⟨c, cs, rfl⟩ := List.exists_cons_of_ne_nil (hwords first List.mem_cons_self).1
      rw [List.flatMap_cons, camel, capital, List.cons_append, List.cons_append, capital]

/-- Joining a word to the word before it does not change the spelling. -/
theorem camel_joinDigits
    {first : List Char}
    (hfirst : first ≠ [])
    {ws : List (List Char)}
    (hws : ∀ w ∈ ws, IsWord w) :
    camel (joinDigits first ws) = camel (first :: ws) := by
  induction ws generalizing first with
  | nil =>
      rw [joinDigits, closeWord, if_neg (by simpa using hfirst)]
  | cons w ws ih =>
      have hw := hws w List.mem_cons_self
      have hrest : ∀ v ∈ ws, IsWord v := fun v hv => hws v (List.mem_cons_of_mem w hv)
      rw [joinDigits]
      split
      · rw [closeWord, if_neg (by simpa using hfirst), camel, flatMap_joinDigits w hrest, camel,
          List.flatMap_cons]
      next hletter =>
        obtain ⟨c, cs, rfl⟩ := List.exists_cons_of_ne_nil hw.1
        have hdigit : c.toUpper = c :=
          (SmallCase.of_isSmall (hw.2 c List.mem_cons_self)).ofDigit
            (by simpa [beginsWithLetter] using hletter)
        rw [ih (by simp) hrest, camel, camel, List.flatMap_cons, capital, hdigit, List.append_assoc]

theorem isAlphanum_of_mem_lowerCamel
    {c : Char}
    (hc : c ∈ (Casing.lowerCamel.apply name).toList) :
    c.isAlphanum = true := by
  rw [toList_lowerCamel] at hc
  have hwords : ∀ w ∈ wordLists name, IsWord w := fun w hw => isWord_of_mem_wordLists hw
  cases hws : wordLists name with
  | nil =>
      rw [hws] at hc
      cases hc
  | cons first rest =>
      rw [hws] at hc hwords
      rcases List.mem_append.mp hc with hc | hc
      · exact (SmallCase.of_isSmall ((hwords first List.mem_cons_self).2 c hc)).alphanum
      · obtain ⟨w, hw, hc⟩ := List.mem_flatMap.mp hc
        exact isAlphanum_of_mem_capital (hwords w (List.mem_cons_of_mem first hw)) hc

theorem lowerCamel_lowerCamel
    (name : String) :
    Casing.lowerCamel.apply (Casing.lowerCamel.apply name) = Casing.lowerCamel.apply name := by
  rw [← String.toList_inj, toList_lowerCamel,
    wordLists_of_isAlphanum fun c hc => isAlphanum_of_mem_lowerCamel hc, toList_lowerCamel]
  have hwords : ∀ w ∈ wordLists name, IsWord w := fun w hw => isWord_of_mem_wordLists hw
  cases hws : wordLists name with
  | nil =>
      rfl
  | cons first rest =>
      rw [hws] at hwords
      have hfirst := hwords first List.mem_cons_self
      have hrest : ∀ w ∈ rest, IsWord w := fun w hw => hwords w (List.mem_cons_of_mem first hw)
      rw [camel, wordsFrom_append [] hfirst.2, List.nil_append,
        wordsFrom_flatMap_capital first hrest, camel_joinDigits hfirst.1 hrest, camel]

end Camel

/-- A spelling of an ASCII name is its own spelling, in every casing. -/
theorem apply_idempotent
    (casing : Casing)
    {name : String}
    (hascii : ∀ c ∈ name.toList, c.toNat < 128) :
    casing.apply (casing.apply name) = casing.apply name := by
  cases casing with
  | lowerSnake =>
      simp only [Casing.apply, String.toList_ofList]
      exact congrArg String.ofList
        (joinSnake_settled fun w hw => settled_lowerWord (isAsciiWord_of_mem_casedWords hascii hw))
  | upperSnake =>
      simp only [Casing.apply, String.toList_ofList]
      exact congrArg String.ofList
        (joinSnake_settled fun w hw => settled_upperWord (isAsciiWord_of_mem_casedWords hascii hw))
  | upperCamel =>
      exact upperCamel_upperCamel name
  | lowerCamel =>
      exact lowerCamel_lowerCamel name

/-- Acronyms, digits that begin words and underscores at all places. -/
theorem apply_idempotent_acronym :
    (∀ c ∈ "_1x_HTTPServer__2B".toList, c.toNat < 128) ∧
      ∀ casing : Casing,
        casing.apply (casing.apply "_1x_HTTPServer__2B") = casing.apply "_1x_HTTPServer__2B" := by
  have hascii : ∀ c ∈ "_1x_HTTPServer__2B".toList, c.toNat < 128 := by
    simp
  exact ⟨hascii, fun casing => apply_idempotent casing hascii⟩

/-- Names of other scripts can lose a mark: the small letter of this capital is two characters, and
the second of them is no letter. -/
example :
    Casing.lowerSnake.apply "\u0130" = "i\u0307" ∧ Casing.lowerSnake.apply "i\u0307" = "i" := by
  decide +kernel

end Naming
end Schemata
