import Schemata.Proofs.Naming.Legal

/-!
# Which words are spellings

A mark is an underscore, so a word without underscores is the identifier of a
sibling only when the name of a sibling is spelled like it.  A word with a capital
is no spelling in small letters, and a word that begins with a capital is none in
camel case that begins with a small letter: case mappings of other scripts lead to
no capital of ASCII either.

**Results.**
* `mem_spellAll_iff`: when a word is among the spellings of siblings.
* `isUpper_of_mem_lowerSnake`, `isUpper_of_head?_lowerCamel`: where spellings have no capitals.
-/

namespace Schemata

namespace Text

theorem isUpper_ofNat
    {n : Nat}
    (h : 90 < n) :
    (Char.ofNat n).isUpper = false := by
  have hZ : 'Z'.val.toNat = 90 := rfl
  have hA : 'A'.val.toNat = 65 := rfl
  have hn := Char.toNat_ofNat n
  have hc : (Char.ofNat n).toNat = (Char.ofNat n).val.toNat := rfl
  simp only [Char.isUpper, ge_iff_le, decide_eq_false_iff_not, UInt32.le_iff_toNat_le]
  split at hn <;> omega

/-- No small letter of any script is a capital of ASCII. -/
theorem isUpper_of_mem_toLowercase
    {c d : Char}
    (h : d ∈ toLowercase c) :
    d.isUpper = false := by
  have hruns : (lowerRuns.all fun r => decide (90 < (r.run.first : Int) + r.distance)) = true := by
    decide +kernel
  have hexpansions :
      (lowerExpansions.all fun e => e.2.all fun n => decide (90 < n)) = true := by
    decide +kernel
  rw [toLowercase] at h
  split at h
  next hlt =>
    have hascii : ∀ n : Fin 128, (Char.ofNat n).toLower.isUpper = false := by
      decide +kernel
    have hc := hascii ⟨c.toNat, hlt⟩
    rw [Char.ofNat_toNat] at hc
    rw [List.mem_singleton.mp h, hc]
  next hlt =>
    obtain ⟨n, hn, rfl⟩ := List.mem_map.mp h
    refine isUpper_ofNat ?_
    rw [mapCase] at hn
    split at hn
    next expansion hlookup =>
      obtain ⟨before, after, heq, -⟩ := List.lookup_eq_some_iff.mp hlookup
      have hmem : (c.toNat, expansion) ∈ lowerExpansions := by
        simp [heq]
      simpa using List.all_eq_true.mp (List.all_eq_true.mp hexpansions _ hmem) n hn
    next =>
      split at hn
      next moved hfind =>
        have hmoved := List.all_eq_true.mp hruns _ (List.mem_of_find?_eq_some hfind)
        have hcontains := List.find?_some hfind
        simp only [CharRun.contains, Bool.and_eq_true, decide_eq_true_eq] at hcontains hmoved
        rw [List.mem_singleton.mp hn]
        omega
      next =>
        rw [List.mem_singleton.mp hn]
        omega

end Text

namespace Naming

section Spelled

variable {language : Language}
variable {casing : Casing}
variable {name word : String}

theorem natural_eq_iff
    (hmark : '_' ∉ word.toList)
    (hfree : language.isReserved word = false)
    (hcased : casing.apply word ≠ "") :
    language.natural casing name = word ↔ casing.apply name = word := by
  have hspell : ∀ text, language.spell text = word → text = word := by
    intro text htext
    unfold Language.spell at htext
    split at htext
    · exact absurd (htext ▸ language.underscore_mem_mark text) hmark
    · exact htext
  rw [Language.natural]
  split
  next hempty =>
    have hnil : casing.apply name = "" := by
      simpa using hempty
    constructor
    · intro h
      rw [hspell _ h] at hnil
      exact absurd hnil hcased
    · intro h
      have hword : word = "" := h.symm.trans hnil
      rw [hword] at hcased
      cases casing <;> exact absurd (by decide +kernel) hcased
  next =>
    constructor
    · exact hspell _
    · rintro rfl
      rw [Language.spell, hfree]
      rfl

/-- The natural spelling of a name, or a marked form of it. -/
theorem natural_or_marked
    {names : List String}
    {ident : String}
    (hident : ident ∈ language.spellAll casing names) :
    ∃ name ∈ names, ident = language.natural casing name ∨
      ∃ n, ident = language.mark.apply^[n + 1] (language.natural casing name) := by
  obtain ⟨i, name, hi, hat⟩ := mem_spellAll hident
  obtain ⟨ident', hat', hcases⟩ := spellAll_cases language casing hi
  obtain rfl := Option.some.inj (hat.symm.trans hat')
  refine ⟨name, List.mem_of_getElem? hi, ?_⟩
  rcases hcases with ⟨-, hnatural⟩ | ⟨-, hmarked⟩
  · exact .inl hnatural
  · exact .inr hmarked

/-- A word without underscores is the identifier of a sibling when the name of one is spelled like
it. -/
theorem mem_spellAll_iff
    {names : List String}
    (hmark : '_' ∉ word.toList)
    (hfree : language.isReserved word = false)
    (hcased : casing.apply word ≠ "") :
    word ∈ language.spellAll casing names ↔ ∃ name ∈ names, casing.apply name = word := by
  constructor
  · intro hmem
    obtain ⟨name, hname, hnatural | ⟨n, hmarked⟩⟩ := natural_or_marked hmem
    · exact ⟨name, hname, (natural_eq_iff hmark hfree hcased).mp hnatural.symm⟩
    · rw [Function.iterate_succ_apply'] at hmarked
      exact absurd (hmarked ▸ language.underscore_mem_mark _) hmark
  · rintro ⟨name, hname, hcasedName⟩
    rw [← (natural_eq_iff hmark hfree hcased).mpr hcasedName]
    exact natural_mem_spellAll language casing hname

end Spelled

section Capitals

theorem isUpper_of_mem_lowerWord
    {w : List Char}
    {c : Char}
    (hc : c ∈ lowerWord w) :
    c.isUpper = false := by
  induction w using lowerWord.induct with
  | case1 =>
      cases hc
  | case2 =>
      rw [lowerWord, if_pos rfl] at hc
      rw [List.mem_singleton.mp hc]
      decide
  | case3 d hd =>
      rw [lowerWord, if_neg hd] at hc
      exact Text.isUpper_of_mem_toLowercase hc
  | case4 d e cs ih =>
      rw [lowerWord] at hc
      rcases List.mem_append.mp hc with hc | hc
      · exact Text.isUpper_of_mem_toLowercase hc
      · exact ih hc

/-- A spelling in small letters has no capitals. -/
theorem isUpper_of_mem_lowerSnake
    {name : String}
    {c : Char}
    (hc : c ∈ (Casing.lowerSnake.apply name).toList) :
    c.isUpper = false := by
  rw [Casing.apply, String.toList_ofList] at hc
  rcases mem_joinSnake hc with rfl | hc
  · decide
  · obtain ⟨spelled, hspelled, hc⟩ := List.mem_flatten.mp hc
    obtain ⟨w, -, rfl⟩ := List.mem_map.mp hspelled
    exact isUpper_of_mem_lowerWord hc

/-- An identifier in camel case, marked in front or not, does not begin with a capital. -/
theorem isUpper_of_head?_lowerCamel
    {language : Language}
    (hlanguage : language ≠ .swift)
    {names : List String}
    {ident : String}
    (hident : ident ∈ language.spellAll .lowerCamel names)
    {c : Char}
    (hc : ident.toList.head? = some c) :
    c.isUpper = false := by
  have hmark : ∀ text, (language.mark.apply text).toList.head? = some c →
      c.isUpper = false := by
    intro text hc
    have hunderscore : (language.mark.apply text).toList.head? = some '_' := by
      cases language with
      | swift => exact absurd rfl hlanguage
      | csharp | javascript => simp [Language.mark, Mark.apply, String.toList_append]
    rw [← Option.some.inj (hunderscore.symm.trans hc)]
    decide
  have hspell : ∀ text, (text.toList.head? = some c → c.isUpper = false) →
      (language.spell text).toList.head? = some c → c.isUpper = false := by
    intro text htext hc
    unfold Language.spell at hc
    split at hc
    · exact hmark text hc
    · exact htext hc
  obtain ⟨name, -, rfl | ⟨n, rfl⟩⟩ := natural_or_marked hident
  · have hfirst := head?_lowerCamel name
    rw [Language.natural] at hc
    refine hspell _ (fun hc => ?_) hc
    split at hc
    next hempty =>
      have hnil : Casing.lowerCamel.apply name = "" := by
        simpa using hempty
      have hnone : name.toList.find? (·.isAlphanum) = none := by
        simpa [hnil] using hfirst
      have halphanum := List.find?_eq_none.mp hnone c (List.mem_of_head? hc)
      simp only [Char.isAlphanum, Char.isAlpha, Bool.or_eq_true, not_or, Bool.not_eq_true]
        at halphanum
      exact halphanum.1.1
    next =>
      rw [hc] at hfirst
      obtain ⟨d, hd, rfl⟩ := Option.map_eq_some_iff.mp hfirst.symm
      have hsmall := (AsciiCase.of_isAlphanum (List.find?_some hd)).smallLower
      exact (SmallCase.of_isSmall hsmall).notUpper
  · rw [Function.iterate_succ_apply'] at hc
    exact hmark _ hc

end Capitals

end Naming

end Schemata
