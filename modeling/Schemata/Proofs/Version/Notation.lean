import Schemata.Package
import Schemata.Proofs.Except
import Schemata.Proofs.Text.Cut
import Schemata.Proofs.Text.Digits

/-!
# The written form of a version

A version that was read fits what can be written: its numbers fit 64 bits, and
its identifiers are made of letters, digits and hyphens.  The written form of
such a version is read back to it: each number ends at the mark after it, the
pre-release at the plus sign or the end, and the marks between identifiers are in
none of them.

**Results.** `wellFormed_of_parse`, `parse_display`, `IsValid.parse_display`.
-/

namespace Schemata
namespace Version

/-- The version can be read from a text. -/
def IsValid
    (v : Version) : Prop :=
  ∃ text, parse text = .ok v

/-- The text is an identifier of a part of a version. -/
def IsIdentifier
    (part : VersionPart)
    (text : String) : Prop :=
  checkIdentifier part text.toList = .ok text ∧ ∀ c ∈ text.toList, isIdentifierChar c = true

/-- What the parts of a version promise. -/
structure WellFormed
    (v : Version) : Prop where
  major : v.major ≤ 18446744073709551615
  minor : v.minor ≤ 18446744073709551615
  patch : v.patch ≤ 18446744073709551615
  pre : ∀ text ∈ v.pre, IsIdentifier .pre text
  build : ∀ text ∈ v.build, IsIdentifier .build text

section Parsing

/-- The steps of reading a version. -/
theorem parse_eq_ok_iff
    {text : String}
    {v : Version} :
    parse text = .ok v ↔ text ≠ "" ∧ ∃ cs₁ cs₂ cs₃ cs₄ cs₅ cs₆ cs₇ part part',
      readNumber .major text.toList = .ok (v.major, cs₁) ∧ readDot .major cs₁ = .ok cs₂ ∧
        readNumber .minor cs₂ = .ok (v.minor, cs₃) ∧ readDot .minor cs₃ = .ok cs₄ ∧
        readNumber .patch cs₄ = .ok (v.patch, cs₅) ∧
        readMarked '-' .pre .patch cs₅ = .ok (v.pre, part, cs₆) ∧
        readMarked '+' .build part cs₆ = .ok (v.build, part', cs₇) ∧
        readEnd part' cs₇ = .ok () := by
  unfold parse
  by_cases hempty : text.isEmpty = true
  · have htext : text = "" := String.isEmpty_iff.mp hempty
    rw [if_pos hempty]
    exact iff_of_false (fun h => (by cases h)) fun h => h.1 htext
  · have htext : text ≠ "" := fun h => hempty (String.isEmpty_iff.mpr h)
    rw [if_neg hempty]
    simp only [bind_eq_ok, Prod.exists, htext, ne_eq, not_false_eq_true, true_and]
    constructor
    · rintro ⟨a, cs₁, h₁, cs₂, h₂, b, cs₃, h₃, cs₄, h₄, c, cs₅, h₅, pre, part, cs₆, h₆, build,
        part', cs₇, h₇, _, h₈, h⟩
      cases h
      exact ⟨cs₁, cs₂, cs₃, cs₄, cs₅, cs₆, cs₇, part, part', h₁, h₂, h₃, h₄, h₅, h₆, h₇, h₈⟩
    · rintro ⟨cs₁, cs₂, cs₃, cs₄, cs₅, cs₆, cs₇, part, part', h₁, h₂, h₃, h₄, h₅, h₆, h₇, h₈⟩
      exact ⟨_, cs₁, h₁, cs₂, h₂, _, cs₃, h₃, cs₄, h₄, _, cs₅, h₅, _, part, cs₆, h₆, _, part', cs₇,
        h₇, (), h₈, rfl⟩

end Parsing

section Numbers

variable {part : VersionPart}

/-- The value of digits is at least the value before them. -/
theorem le_foldl_digits
    (value : Nat)
    (ds : List Char) :
    value ≤ ds.foldl (fun n c => 10 * n + Text.digitValue c) value := by
  induction ds generalizing value with
  | nil =>
      exact le_rfl
  | cons d ds ih =>
      have hle := ih (10 * value + Text.digitValue d)
      rw [List.foldl_cons]
      omega

/-- Digits are read up to what is none, where their value fits. -/
theorem readDigits_append
    {value : Nat}
    {ds rest : List Char}
    (hds : ∀ d ∈ ds, Text.isDigit d = true)
    (hrest : ∀ c ∈ rest.head?, Text.isDigit c = false)
    (hvalue : value = 0 → ds = [])
    (hfits : ds.foldl (fun n c => 10 * n + Text.digitValue c) value ≤ 18446744073709551615) :
    readDigits part true value (ds ++ rest) =
      .ok (ds.foldl (fun n c => 10 * n + Text.digitValue c) value, rest) := by
  induction ds generalizing value with
  | nil =>
      cases rest with
      | nil =>
          rfl
      | cons c rest =>
          have hc : ¬Text.isDigit c = true := by
            simp [hrest c rfl]
          rw [List.nil_append, readDigits, if_neg hc, if_pos rfl]
          rfl
  | cons d ds ih =>
      have hd := hds d List.mem_cons_self
      have hne : value ≠ 0 := fun h => List.cons_ne_nil d ds (hvalue h)
      have hle := le_foldl_digits (10 * value + Text.digitValue d) ds
      rw [List.foldl_cons] at hfits
      rw [List.cons_append, readDigits, if_pos hd, if_neg (by simp [hne]), if_pos (by omega),
        ih (fun d hd => hds d (List.mem_cons_of_mem _ hd)) (by omega) hfits]
      rfl

/-- A number is read up to what is no digit. -/
theorem readNumber_append
    {n : Nat}
    {rest : List Char}
    (hrest : ∀ c ∈ rest.head?, Text.isDigit c = false)
    (hfits : n ≤ 18446744073709551615) :
    readNumber part (Nat.toDigits 10 n ++ rest) = .ok (n, rest) := by
  obtain ⟨d, ds, hdigits⟩ := List.exists_cons_of_ne_nil (Nat.toDigits_ne_nil (n := n) (b := 10))
  have hall : ∀ c ∈ d :: ds, Text.isDigit c = true := by
    have h := Text.isDigits_toDigits n
    rw [hdigits, Text.isDigits, Bool.and_eq_true, List.all_eq_true] at h
    exact h.2
  have hspelled : ds.foldl (fun n c => 10 * n + Text.digitValue c) (Text.digitValue d) = n := by
    have h := Text.digitsValue_toDigits n
    rwa [hdigits, Text.digitsValue, List.foldl_cons, Nat.mul_zero, Nat.zero_add] at h
  have hle := le_foldl_digits (Text.digitValue d) ds
  have hzero : Text.digitValue d = 0 → ds = [] := by
    intro hvalue
    have hd := hall d List.mem_cons_self
    have hchar : d = '0' := by
      simp only [Text.isDigit, Bool.and_eq_true, decide_eq_true_eq, Char.le_def,
        UInt32.le_iff_toNat_le] at hd
      unfold Text.digitValue at hvalue
      refine Char.toNat_inj.mp ?_
      change d.toNat = 48
      have hlow : 48 ≤ d.toNat := hd.1
      have hvalue' : d.toNat - 48 = 0 := hvalue
      omega
    rw [hchar] at hdigits
    rw [Text.eq_zero_of_toDigits hdigits, Nat.toDigits_zero] at hdigits
    exact ((List.cons.inj hdigits).2).symm
  rw [hdigits, readNumber, List.cons_append, readDigits, if_pos (hall d List.mem_cons_self),
    if_neg (by simp), Nat.mul_zero, Nat.zero_add, if_pos (by omega),
    readDigits_append (fun c hc => hall c (List.mem_cons_of_mem d hc)) hrest hzero (by omega),
    hspelled]

/-- What is read fits 64 bits. -/
theorem readDigits_le
    {started : Bool}
    {value n : Nat}
    {cs rest : List Char}
    (h : readDigits part started value cs = .ok (n, rest))
    (hvalue : value ≤ 18446744073709551615) :
    n ≤ 18446744073709551615 := by
  fun_induction readDigits part started value cs with
  | case1 =>
      cases h
  | case2 started value c cs hdigit hzero next hfits ih =>
      exact ih h hfits
  | case3 =>
      cases h
  | case4 =>
      cases h
      exact hvalue
  | case5 =>
      cases h
  | case6 =>
      cases h
      exact hvalue
  | case7 =>
      cases h

end Numbers

section Identifiers

variable {part : VersionPart}

/-- The characters of a joined text are the mark or those of its pieces. -/
theorem mem_intercalate
    {m c : Char}
    {pieces : List (List Char)}
    (h : c ∈ [m].intercalate pieces) :
    c = m ∨ ∃ piece ∈ pieces, c ∈ piece := by
  induction pieces with
  | nil =>
      cases h
  | cons first rest ih =>
      cases rest with
      | nil =>
          rw [List.intercalate_singleton] at h
          exact .inr ⟨first, List.mem_cons_self, h⟩
      | cons second rest =>
          rw [List.intercalate_cons_cons, List.append_assoc, List.mem_append,
            List.singleton_append, List.mem_cons] at h
          rcases h with h | h | h
          · exact .inr ⟨first, List.mem_cons_self, h⟩
          · exact .inl h
          · refine (ih h).imp_right ?_
            rintro ⟨piece, hpiece, hc⟩
            exact ⟨piece, List.mem_cons_of_mem first hpiece, hc⟩

/-- Pieces consist of what was cut, without the marks. -/
theorem mem_splitWhen
    {sep : Char → Bool}
    {cs piece : List Char}
    (h : piece ∈ Text.splitWhen sep cs)
    {c : Char}
    (hc : c ∈ piece) :
    c ∈ cs ∧ sep c = false := by
  induction cs generalizing piece with
  | nil =>
      rw [Text.splitWhen, List.mem_singleton] at h
      rw [h] at hc
      cases hc
  | cons d cs ih =>
      rw [Text.splitWhen] at h
      split at h
      · rcases List.mem_cons.mp h with rfl | h
        · cases hc
        · exact (ih h hc).imp_left (List.mem_cons_of_mem d)
      · rename_i hd
        cases hpieces : Text.splitWhen sep cs with
        | nil =>
            rw [hpieces, Text.consFirst, List.mem_singleton] at h
            rw [h, List.mem_singleton] at hc
            rw [hc]
            exact ⟨List.mem_cons_self, by simpa using hd⟩
        | cons first rest =>
            rw [hpieces, Text.consFirst] at h
            rw [hpieces] at ih
            rcases List.mem_cons.mp h with rfl | h
            · rcases List.mem_cons.mp hc with rfl | hc
              · exact ⟨List.mem_cons_self, by simpa using hd⟩
              · exact (ih List.mem_cons_self hc).imp_left (List.mem_cons_of_mem d)
            · exact (ih (List.mem_cons_of_mem first h) hc).imp_left (List.mem_cons_of_mem d)

theorem eq_of_checkIdentifier
    {segment : List Char}
    {text : String}
    (h : checkIdentifier part segment = .ok text) :
    text = String.ofList segment := by
  unfold checkIdentifier at h
  split at h
  · cases h
  · split at h
    · cases h
    · cases h
      rfl

/-- Identifiers with dots between them are read up to what belongs to none. -/
theorem readIdentifiers_append
    {texts : List String}
    {rest : List Char}
    (hne : texts ≠ [])
    (htexts : ∀ text ∈ texts, IsIdentifier part text)
    (hrest : ∀ c ∈ rest.head?, (isIdentifierChar c || c == '.') = false) :
    readIdentifiers part (['.'].intercalate (texts.map String.toList) ++ rest) =
      .ok (texts, rest) := by
  have hbody : ∀ c ∈ ['.'].intercalate (texts.map String.toList),
      (isIdentifierChar c || c == '.') = true := by
    intro c hc
    rcases mem_intercalate hc with rfl | ⟨piece, hpiece, hc⟩
    · rfl
    · obtain ⟨text, htext, rfl⟩ := List.mem_map.mp hpiece
      rw [(htexts text htext).2 c hc, Bool.true_or]
  have hstop : rest.takeWhile (fun c => isIdentifierChar c || c == '.') = [] ∧
      rest.dropWhile (fun c => isIdentifierChar c || c == '.') = rest := by
    cases rest with
    | nil =>
        exact ⟨rfl, rfl⟩
    | cons c rest =>
        have hc := hrest c rfl
        exact ⟨List.takeWhile_cons_of_neg (by simp only [hc, Bool.false_eq_true, not_false_eq_true]),
          List.dropWhile_cons_of_neg (by simp only [hc, Bool.false_eq_true, not_false_eq_true])⟩
  have hpieces : Text.splitWhen (· == '.') (['.'].intercalate (texts.map String.toList)) =
      texts.map String.toList := by
    rw [Naming.splitWhen_eq_splitOnP]
    refine List.splitOn_intercalate '.' ?_ (by simpa using hne)
    intro piece hpiece hdot
    obtain ⟨text, htext, rfl⟩ := List.mem_map.mp hpiece
    exact absurd ((htexts text htext).2 '.' hdot) (by decide)
  have hchecked : (texts.map String.toList).mapM (checkIdentifier part) = .ok texts := by
    refine mapM_eq_ok_iff.mpr (List.forall₂_map_left_iff.mpr ?_)
    exact List.forall₂_same.mpr fun text htext => (htexts text htext).1
  rw [readIdentifiers, List.span_eq_takeWhile_dropWhile, List.takeWhile_append_of_pos hbody,
    List.dropWhile_append_of_pos hbody, hstop.1, hstop.2, List.append_nil]
  dsimp only
  rw [hpieces, hchecked]

/-- What is read are identifiers. -/
theorem isIdentifier_of_readIdentifiers
    {texts : List String}
    {cs rest : List Char}
    (h : readIdentifiers part cs = .ok (texts, rest)) :
    ∀ text ∈ texts, IsIdentifier part text := by
  rw [readIdentifiers, List.span_eq_takeWhile_dropWhile] at h
  dsimp only at h
  split at h
  · rename_i found hfound
    cases h
    intro text htext
    obtain ⟨piece, hpiece, hcheck⟩ := exists_of_mem_mapM hfound htext
    have htoList : text.toList = piece := by
      rw [eq_of_checkIdentifier hcheck, String.toList_ofList]
    refine ⟨by rw [htoList]; exact hcheck, fun c hc => ?_⟩
    obtain ⟨hmem, hdot⟩ := mem_splitWhen hpiece (htoList ▸ hc)
    have hbody := List.mem_takeWhile_imp hmem
    rwa [hdot, Bool.or_false] at hbody
  · cases h

end Identifiers

section Marked

variable {mark : Char}
variable {marked part : VersionPart}

/-- The characters of identifiers after a mark; there are none where there are no identifiers. -/
def markedText
    (mark : Char)
    (texts : List String) :
    List Char :=
  if texts = [] then [] else mark :: ['.'].intercalate (texts.map String.toList)

theorem toList_displayIdentifiers
    (mark : Char)
    (texts : List String) :
    (displayIdentifiers (String.singleton mark) texts).toList = markedText mark texts := by
  unfold displayIdentifiers markedText
  cases texts with
  | nil =>
      rfl
  | cons text texts =>
      rw [if_neg (by simp), if_neg (by simp), String.toList_append, String.toList_singleton,
        String.toList_intercalate]
      rfl

theorem head?_markedText
    {texts : List String}
    {c : Char}
    (h : c ∈ (markedText mark texts).head?) :
    c = mark := by
  unfold markedText at h
  split at h
  · cases h
  · cases h
    rfl

/-- Identifiers after a mark are read up to what belongs to none. -/
theorem readMarked_append
    {texts : List String}
    {rest : List Char}
    (htexts : ∀ text ∈ texts, IsIdentifier marked text)
    (hrest : ∀ c ∈ rest.head?, (isIdentifierChar c || c == '.') = false ∧ c ≠ mark) :
    ∃ last, readMarked mark marked part (markedText mark texts ++ rest) =
      .ok (texts, last, rest) := by
  unfold markedText
  split
  · rename_i hnone
    cases rest with
    | nil =>
        exact ⟨part, by rw [hnone]; rfl⟩
    | cons c rest =>
        have hc : ¬(c == mark) = true := by
          simpa using (hrest c rfl).2
        exact ⟨part, by rw [List.nil_append, readMarked, if_neg hc, hnone]⟩
  · rename_i hsome
    refine ⟨marked, ?_⟩
    rw [List.cons_append, readMarked, if_pos (beq_self_eq_true mark),
      readIdentifiers_append hsome htexts fun c hc => (hrest c hc).1]

theorem isIdentifier_of_readMarked
    {texts : List String}
    {last : VersionPart}
    {cs rest : List Char}
    (h : readMarked mark marked part cs = .ok (texts, last, rest)) :
    ∀ text ∈ texts, IsIdentifier marked text := by
  unfold readMarked at h
  split at h
  · cases h
    exact fun text htext => (by cases htext)
  · split at h
    · split at h
      · rename_i hread
        cases h
        exact isIdentifier_of_readIdentifiers hread
      · cases h
    · cases h
      exact fun text htext => (by cases htext)

end Marked

section Display

variable {v : Version}

theorem wellFormed_of_parse
    {text : String}
    (h : parse text = .ok v) :
    v.WellFormed := by
  obtain ⟨-, _, _, _, _, _, _, _, _, _, hmajor, -, hminor, -, hpatch, hpre, hbuild, -⟩ :=
    parse_eq_ok_iff.mp h
  exact ⟨readDigits_le hmajor (Nat.zero_le _), readDigits_le hminor (Nat.zero_le _),
    readDigits_le hpatch (Nat.zero_le _), isIdentifier_of_readMarked hpre,
    isIdentifier_of_readMarked hbuild⟩

theorem toList_display
    (v : Version) :
    v.display.toList =
      Nat.toDigits 10 v.major ++ '.' :: (Nat.toDigits 10 v.minor ++ '.' ::
        (Nat.toDigits 10 v.patch ++ (markedText '-' v.pre ++ markedText '+' v.build))) := by
  have hpre := toList_displayIdentifiers '-' v.pre
  have hbuild := toList_displayIdentifiers '+' v.build
  rw [display, String.toList_append, String.toList_append,
    show "-" = String.singleton '-' from rfl, hpre, show "+" = String.singleton '+' from rfl, hbuild]
  simp only [toString, Nat.toList_repr, String.toList_append, List.append_assoc,
    show ".".toList = ['.'] from rfl, List.cons_append, List.nil_append]

/-- The written form of a version is read back to it. -/
theorem WellFormed.parse_display
    (h : v.WellFormed) :
    parse v.display = .ok v := by
  have hbuildEnd : ∀ c ∈ ([] : List Char).head?,
      (isIdentifierChar c || c == '.') = false ∧ c ≠ '+' :=
    fun c hc => (by cases hc)
  have hpreEnd : ∀ c ∈ (markedText '+' v.build).head?,
      (isIdentifierChar c || c == '.') = false ∧ c ≠ '-' := by
    intro c hc
    rw [head?_markedText hc]
    decide
  have hpatchEnd : ∀ c ∈ (markedText '-' v.pre ++ markedText '+' v.build).head?,
      Text.isDigit c = false := by
    intro c hc
    rw [List.head?_append] at hc
    rcases Option.or_eq_some_iff.mp hc with hc | ⟨-, hc⟩
    · rw [head?_markedText hc]
      decide
    · rw [head?_markedText hc]
      decide
  obtain ⟨last, hpre⟩ : ∃ last, readMarked '-' .pre .patch
      (markedText '-' v.pre ++ markedText '+' v.build) = .ok (v.pre, last, _) :=
    readMarked_append h.pre hpreEnd
  obtain ⟨last', hbuild⟩ : ∃ last', readMarked '+' .build last
      (markedText '+' v.build ++ []) = .ok (v.build, last', []) :=
    readMarked_append h.build hbuildEnd
  rw [List.append_nil] at hbuild
  have hpatch : readNumber .patch (Nat.toDigits 10 v.patch ++ _) = .ok (v.patch, _) :=
    readNumber_append hpatchEnd h.patch
  have hnumber : ∀ part n rest, n ≤ 18446744073709551615 →
      readNumber part (Nat.toDigits 10 n ++ '.' :: rest) = .ok (n, '.' :: rest) :=
    fun part n rest hn => readNumber_append (fun c hc => (by cases hc; rfl)) hn
  refine parse_eq_ok_iff.mpr ⟨fun hempty => ?_, ?_⟩
  · have hlist := congrArg String.toList hempty
    rw [toList_display] at hlist
    simp at hlist
  · rw [toList_display]
    exact ⟨_, _, _, _, _, _, _, _, _, hnumber .major _ _ h.major, rfl,
      hnumber .minor _ _ h.minor, rfl, hpatch, hpre, hbuild, rfl⟩

theorem IsValid.parse_display
    (h : v.IsValid) :
    parse v.display = .ok v := by
  obtain ⟨text, htext⟩ := h
  exact (wellFormed_of_parse htext).parse_display

/-- What is in no identifier and is no mark is not in the written form of a version. -/
theorem WellFormed.not_mem_display
    (h : v.WellFormed)
    {c : Char}
    (hc : isIdentifierChar c = false)
    (hdot : c ≠ '.')
    (hplus : c ≠ '+') :
    c ∉ v.display.toList := by
  have hdash : c ≠ '-' := by
    rintro rfl
    exact absurd hc (by decide)
  have hdigits : ∀ n, c ∉ Nat.toDigits 10 n := by
    intro n hmem
    have hdigit := Nat.isDigit_of_mem_toDigits (by decide) (by decide) hmem
    rw [isIdentifierChar, Char.isAlphanum, hdigit, Bool.or_true, Bool.true_or] at hc
    cases hc
  have hmarked : ∀ mark part (texts : List String), mark ≠ c →
      (∀ text ∈ texts, IsIdentifier part text) → c ∉ markedText mark texts := by
    intro mark part texts hmark htexts hmem
    unfold markedText at hmem
    split at hmem
    · cases hmem
    · rcases List.mem_cons.mp hmem with heq | hmem
      · exact hmark heq.symm
      · rcases mem_intercalate hmem with heq | ⟨piece, hpiece, hmem⟩
        · exact hdot heq
        · obtain ⟨text, htext, rfl⟩ := List.mem_map.mp hpiece
          rw [(htexts text htext).2 c hmem] at hc
          cases hc
  have hpre := hmarked '-' .pre v.pre hdash.symm h.pre
  have hbuild := hmarked '+' .build v.build hplus.symm h.build
  rw [toList_display]
  simp only [List.mem_append, List.mem_cons, hdigits, hpre, hbuild, hdot, or_self,
    not_false_eq_true]

theorem IsValid.not_mem_display
    (h : v.IsValid)
    {c : Char}
    (hc : isIdentifierChar c = false)
    (hdot : c ≠ '.')
    (hplus : c ≠ '+') :
    c ∉ v.display.toList := by
  obtain ⟨text, htext⟩ := h
  exact (wellFormed_of_parse htext).not_mem_display hc hdot hplus

end Display

end Version
end Schemata
