import Schemata.Json.Parser
import Schemata.Proofs.Text.Hexadecimal
import Schemata.Text.Quoted

/-!
# Reading string literals

Between its quotes a string literal is a sequence of items, each of which stands
for one character.  Languages differ in what is an item.  A string literal of
generated code has one item for each character of its text: the character
itself, a letter behind a backslash, or four digits for a control character that
has no letter.

The rules of JSON strings, which string literals of JavaScript include, have all
these items.  By them every literal stands for its text, and for no other one.

**Results.**
* `Json.item_literalChar`: the items of generated code are items of JSON strings.
* `Json.stringBody?_standsFor`: JSON strings are read item by item.
* `Json.odd_backslashes`: what stands before a quote inside a JSON string.
* `Json.literal?_literal`: a literal is read back, whatever follows it.
* `literal_reads_back`: what a literal looks like, and what it stands for.
-/

namespace Schemata

namespace Text

section Items

/-- A sequence of items stands for the characters of its items. -/
inductive StandsFor (Item : List Char → Char → Prop) : List Char → List Char → Prop
  | nil :
      StandsFor Item [] []
  | cons
      {item cs value : List Char}
      {c : Char}
      (hitem : Item item c)
      (hrest : StandsFor Item cs value) :
      StandsFor Item (item ++ cs) (c :: value)

variable {Item : List Char → Char → Prop}

theorem StandsFor.flatMap
    {write : Char → List Char}
    {cs : List Char}
    (h : ∀ c ∈ cs, Item (write c) c) :
    StandsFor Item (cs.flatMap write) cs := by
  induction cs with
  | nil =>
      exact .nil
  | cons c cs ih =>
      exact .cons (h c List.mem_cons_self) (ih fun d hd => h d (List.mem_cons_of_mem _ hd))

/-- What is true of all characters of items is true of those of a sequence. -/
theorem StandsFor.forall_mem
    {P : Char → Prop}
    (hitems : ∀ {item c}, Item item c → ∀ d ∈ item, P d)
    {cs value : List Char}
    (h : StandsFor Item cs value) :
    ∀ d ∈ cs, P d := by
  induction h with
  | nil =>
      exact fun d hd => absurd hd List.not_mem_nil
  | cons hitem _ ih =>
      exact fun d hd => (List.mem_append.mp hd).elim (hitems hitem d) (ih d)

end Items

section Written

/-- The letters of the short escapes in literals, and the characters that these stand for. -/
def literalLetters : List (Char × Char) :=
  [('\x22', '\x22'), ('\\', '\\'), ('n', '\n'), ('r', '\r'), ('t', '\t')]

/-- How a character is written in a literal. -/
inductive Written : List Char → Char → Prop
  | letter
      {a c : Char}
      (hletter : (a, c) ∈ literalLetters) :
      Written ['\\', a] c
  | control
      {digits : List Char}
      {c : Char}
      (hcontrol : c.toNat < 0x20)
      (hletter : c ≠ '\n' ∧ c ≠ '\r' ∧ c ≠ '\t')
      (hlength : digits.length = 4)
      (hvalue : HexNumber digits c.toNat) :
      Written ('\\' :: 'u' :: digits) c
  | plain
      {c : Char}
      (hquote : c ≠ '\x22')
      (hbackslash : c ≠ '\\')
      (hcontrol : 0x20 ≤ c.toNat) :
      Written [c] c

/-- The four digits of a control character write its code point. -/
theorem hexPadded_control :
    ∀ n < 0x20, (hexPadded 4 n).toList.length = 4 ∧
      hexDigits? (hexPadded 4 n).toList = some n := by
  decide

theorem written_literalChar
    (c : Char) :
    Written (literalChar c) c := by
  unfold literalChar
  split_ifs with hquote hbackslash hfeed hreturn htab hcontrol
  · exact .letter (by simp [literalLetters, hquote])
  · exact .letter (by simp [literalLetters, hbackslash])
  · exact .letter (by simp [literalLetters, hfeed])
  · exact .letter (by simp [literalLetters, hreturn])
  · exact .letter (by simp [literalLetters, htab])
  · obtain ⟨hlength, hdigits⟩ := hexPadded_control c.toNat hcontrol
    exact .control hcontrol ⟨hfeed, hreturn, htab⟩ hlength (hexDigits?_eq_some_iff.mp hdigits)
  · exact .plain hquote hbackslash (Nat.not_lt.mp hcontrol)

theorem literalChar_ne_nil
    (c : Char) :
    literalChar c ≠ [] := by
  have hwritten := written_literalChar c
  generalize literalChar c = written at hwritten
  cases hwritten with
  | letter | control | plain => exact List.cons_ne_nil _ _

theorem length_le_flatMap_literalChar
    (cs : List Char) :
    cs.length ≤ (cs.flatMap literalChar).length := by
  induction cs with
  | nil =>
      exact Nat.le_refl 0
  | cons c cs ih =>
      have hchar := List.length_pos_of_ne_nil (literalChar_ne_nil c)
      rw [List.flatMap_cons, List.length_append, List.length_cons]
      omega

theorem toList_literal
    (text : String) :
    (literal text).toList = '\x22' :: (text.toList.flatMap literalChar ++ ['\x22']) := by
  simp [literal]

end Written

section Backslashes

/-- The number of backslashes at the end of a text. -/
def backslashes
    (cs : List Char) :
    Nat :=
  (cs.reverse.takeWhile (· == '\\')).length

variable (before : List Char)

theorem backslashes_append_backslash :
    backslashes (before ++ ['\\']) = backslashes before + 1 := by
  simp [backslashes]

theorem backslashes_append_of_notMem
    {cs : List Char}
    (hne : cs ≠ [])
    (hmem : '\\' ∉ cs) :
    backslashes (before ++ cs) = 0 := by
  obtain ⟨front, last, rfl⟩ := (List.eq_nil_or_concat cs).resolve_left hne
  have hlast : last ≠ '\\' := fun heq => hmem (by simp [heq])
  rw [List.concat_eq_append, ← List.append_assoc]
  simp [backslashes, hlast]

end Backslashes

end Text

namespace Json

open Text (HexNumber StandsFor backslashes)

section Grammar

/-- The letters of short escapes, and the characters that these stand for. -/
def letters : List (Char × Char) :=
  [('\x22', '\x22'), ('\\', '\\'), ('/', '/'), ('b', '\x08'), ('f', '\x0c'), ('n', '\n'),
    ('r', '\r'), ('t', '\t')]

/-- An item of a JSON string and the character that it stands for. -/
inductive Item : List Char → Char → Prop
  | plain
      {c : Char}
      (hquote : c ≠ '\x22')
      (hbackslash : c ≠ '\\')
      (hcontrol : 0x20 ≤ c.toNat) :
      Item [c] c
  | letter
      {a c : Char}
      (hletter : (a, c) ∈ letters) :
      Item ['\\', a] c
  | unit
      {digits : List Char}
      {c : Char}
      (hlength : digits.length = 4)
      (hvalue : HexNumber digits c.toNat) :
      Item ('\\' :: 'u' :: digits) c
  | pair
      {digits digits' : List Char}
      {high low : Nat}
      {c : Char}
      (hlength : digits.length = 4)
      (hhigh : HexNumber digits high)
      (hlength' : digits'.length = 4)
      (hlow : HexNumber digits' low)
      (hrange : 0xD800 ≤ high ∧ high < 0xDC00)
      (hrange' : 0xDC00 ≤ low ∧ low < 0xE000)
      (hvalue : c.toNat = 0x10000 + (high - 0xD800) * 0x400 + (low - 0xDC00)) :
      Item ('\\' :: 'u' :: (digits ++ '\\' :: 'u' :: digits')) c

theorem item_of_written
    {item : List Char}
    {c : Char}
    (h : Text.Written item c) :
    Item item c := by
  cases h with
  | letter hletter =>
      have hsubset : Text.literalLetters ⊆ letters := by
        decide
      exact .letter (hsubset hletter)
  | control _ _ hlength hvalue =>
      exact .unit hlength hvalue
  | plain hquote hbackslash hcontrol =>
      exact .plain hquote hbackslash hcontrol

theorem item_literalChar
    (c : Char) :
    Item (Text.literalChar c) c :=
  item_of_written (Text.written_literalChar c)

variable {item : List Char}
variable {c : Char}

theorem Item.noControl
    (h : Item item c) :
    ∀ d ∈ item, 0x20 ≤ d.toNat := by
  have hspelled : ∀ {digits n}, HexNumber digits n → ∀ d ∈ digits, 0x20 ≤ d.toNat := by
    intro digits n hvalue d hd
    have hnone : ∀ n : Fin 0x20, Text.hexValue? (Char.ofNat n) = none := by
      decide
    by_contra hlt
    have hd' := hnone ⟨d.toNat, Nat.not_le.mp hlt⟩
    rw [Char.ofNat_toNat] at hd'
    exact hvalue.notMem hd' hd
  have hbackslash : 0x20 ≤ '\\'.toNat := by decide
  have hu : 0x20 ≤ 'u'.toNat := by decide
  cases h with
  | plain _ _ hcontrol =>
      simpa using hcontrol
  | letter hletter =>
      have hletters : ∀ pair ∈ letters, 0x20 ≤ pair.1.toNat := by
        decide
      simpa [hbackslash] using hletters _ hletter
  | unit _ hvalue =>
      simpa [hbackslash, hu] using hspelled hvalue
  | pair _ hhigh _ hlow =>
      simp only [List.forall_mem_cons, List.forall_mem_append]
      exact ⟨hbackslash, hu, hspelled hhigh, hbackslash, hu, hspelled hlow⟩

/-- Inside an item, a quote stands behind the backslash of its escape. -/
theorem Item.eq_backslash
    {before after : List Char}
    (h : Item (before ++ '\x22' :: after) c) :
    before = ['\\'] := by
  generalize hwhole : before ++ '\x22' :: after = whole at h
  have hquote : '\x22' ∈ whole := hwhole ▸ by simp
  have hdigit : Text.hexValue? '\x22' = none := by decide
  cases h with
  | plain hne =>
      exact absurd (List.mem_singleton.mp hquote) (Ne.symm hne)
  | letter =>
      cases before with
      | nil => exact absurd (List.cons.inj hwhole).1 (by decide)
      | cons first before =>
          obtain ⟨rfl, hwhole⟩ := List.cons.inj hwhole
          cases before with
          | nil => rfl
          | cons => simp at hwhole
  | unit _ hvalue =>
      exact absurd hquote (by simpa using hvalue.notMem hdigit)
  | pair _ hhigh _ hlow =>
      exact absurd hquote (by simp [hhigh.notMem hdigit, hlow.notMem hdigit])

/-- An item leaves no backslash behind that could begin an escape. -/
theorem Item.even_backslashes
    (h : Item item c)
    {before : List Char}
    (heven : Even (backslashes before)) :
    Even (backslashes (before ++ item)) := by
  have hdigits : ∀ {digits n} (front : List Char), digits.length = 4 → HexNumber digits n →
      backslashes (front ++ digits) = 0 := by
    intro digits n front hlength hvalue
    refine Text.backslashes_append_of_notMem front ?_ (hvalue.notMem (by decide))
    rintro rfl
    cases hlength
  cases h with
  | plain _ hbackslash =>
      rw [Text.backslashes_append_of_notMem before (List.cons_ne_nil _ _)
        (by simpa using hbackslash.symm)]
      exact Even.zero
  | @letter a _ _ =>
      rw [List.append_cons]
      by_cases ha : a = '\\'
      · rw [ha, Text.backslashes_append_backslash, Text.backslashes_append_backslash]
        exact heven.add_one.add_one
      · rw [Text.backslashes_append_of_notMem _ (List.cons_ne_nil _ _)
          (by simpa using Ne.symm ha)]
        exact Even.zero
  | unit hlength hvalue =>
      rw [List.append_cons, List.append_cons, hdigits _ hlength hvalue]
      exact Even.zero
  | pair _ _ hlength hlow =>
      rw [List.append_cons, List.append_cons, ← List.append_assoc, List.append_cons,
        List.append_cons, hdigits _ hlength hlow]
      exact Even.zero

/-- Inside a JSON string, each quote stands behind an odd number of backslashes: the last one is no
escape of its own. -/
theorem odd_backslashes
    {inside value : List Char}
    (h : StandsFor Item inside value)
    {start before after : List Char}
    (hstart : Even (backslashes start))
    (hinside : inside = before ++ '\x22' :: after) :
    Odd (backslashes (start ++ before)) := by
  induction h generalizing start before with
  | nil =>
      simp at hinside
  | @cons _ rest _ _ hitem _ ih =>
      have hnext := hitem.even_backslashes hstart
      rcases List.append_eq_append_iff.mp hinside with ⟨more, rfl, hcs⟩ | ⟨more, rfl, hcs⟩
      · rw [← List.append_assoc]
        exact ih hnext hcs
      · cases more with
        | nil =>
            rw [List.append_nil] at hnext
            have hrest : rest = [] ++ '\x22' :: after := hcs.symm
            simpa using ih hnext hrest
        | cons d more =>
            obtain ⟨rfl, -⟩ := List.cons.inj hcs
            rw [hitem.eq_backslash, Text.backslashes_append_backslash]
            exact hstart.add_one

end Grammar

section Reading

theorem hex4?_append
    {digits : List Char}
    (hlength : digits.length = 4)
    {n : Nat}
    (hvalue : HexNumber digits n)
    (rest : List Char) :
    hex4? (digits ++ rest) = some (n, rest) := by
  have hdigits := Text.hexDigits?_eq_some_iff.mpr hvalue
  match digits, hlength with
  | [_, _, _, _], _ => simp [hex4?, hdigits]

variable {item : List Char}
variable {c : Char}

/-- An item is read as the character that it stands for, and reading goes on after it. -/
theorem stringBody?_item
    (h : Item item c)
    (steps : Nat)
    (rest : List Char) :
    stringBody? (steps + 1) (item ++ rest) =
      (stringBody? steps rest).map fun read => (c :: read.1, read.2) := by
  have hescape : ∀ after, escape? (after ++ rest) = some (c, rest) →
      stringBody? (steps + 1) ('\\' :: (after ++ rest)) =
        (stringBody? steps rest).map fun read => (c :: read.1, read.2) := by
    intro after hread
    simp [stringBody?, hread]
  have hscalar := Text.scalar?_eq_some_iff.mpr (rfl : c.toNat = c.toNat)
  cases h with
  | plain hquote hbackslash hcontrol =>
      simp [stringBody?, hquote, hbackslash, Nat.not_lt.mpr hcontrol]
  | @letter a _ hletter =>
      refine hescape [a] ?_
      simp only [letters, List.mem_cons, Prod.mk.injEq, List.not_mem_nil, or_false] at hletter
      rcases hletter with ⟨rfl, rfl⟩ | ⟨rfl, rfl⟩ | ⟨rfl, rfl⟩ | ⟨rfl, rfl⟩ | ⟨rfl, rfl⟩ |
        ⟨rfl, rfl⟩ | ⟨rfl, rfl⟩ | ⟨rfl, rfl⟩ <;> rfl
  | @unit digits _ hlength hvalue =>
      refine hescape ('u' :: digits) ?_
      have hhigh : isHighSurrogate c.toNat = false := by
        have hvalid : c.toNat < 0xD800 ∨ 0xDFFF < c.toNat ∧ c.toNat < 0x110000 := c.valid
        simp only [isHighSurrogate, Bool.and_eq_false_iff, decide_eq_false_iff_not]
        omega
      simp [escape?, unicodeEscape?, hex4?_append hlength hvalue, hhigh, hscalar]
  | @pair digits digits' high low _ hlength hhigh hlength' hlow hrange hrange' hvalue =>
      refine hescape ('u' :: (digits ++ '\\' :: 'u' :: digits')) ?_
      rw [hvalue] at hscalar
      simp [escape?, unicodeEscape?, hex4?_append hlength hhigh, hex4?_append hlength' hlow,
        isHighSurrogate, isLowSurrogate, hrange, hrange', hscalar]

/-- A sequence of items is read up to the quote behind it, given enough steps. -/
theorem stringBody?_standsFor
    {inside value : List Char}
    (h : StandsFor Item inside value)
    {steps : Nat}
    (hsteps : value.length < steps)
    (rest : List Char) :
    stringBody? steps (inside ++ '\x22' :: rest) = some (value, rest) := by
  induction h generalizing steps with
  | nil =>
      obtain ⟨steps, rfl⟩ := Nat.exists_eq_add_one_of_ne_zero (Nat.ne_zero_of_lt hsteps)
      simp [stringBody?]
  | cons hitem _ ih =>
      obtain ⟨steps, rfl⟩ := Nat.exists_eq_add_one_of_ne_zero (Nat.ne_zero_of_lt hsteps)
      rw [List.append_assoc, stringBody?_item hitem, ih (Nat.lt_of_succ_lt_succ hsteps)]
      rfl

/-- A sequence of items stands for one text. -/
theorem standsFor_unique
    {inside value value' : List Char}
    (h : StandsFor Item inside value)
    (h' : StandsFor Item inside value') :
    value = value' := by
  have hshort : value.length < value.length + value'.length + 1 := by omega
  have hshort' : value'.length < value.length + value'.length + 1 := by omega
  have hread := stringBody?_standsFor h hshort []
  rw [stringBody?_standsFor h' hshort' []] at hread
  exact (Prod.mk.inj (Option.some.inj hread)).1.symm

end Reading

section Literals

theorem standsFor_literal
    (cs : List Char) :
    StandsFor Item (cs.flatMap Text.literalChar) cs :=
  .flatMap fun c _ => item_literalChar c

/-- A string with its opening quote. -/
def literal? : List Char → Option (String × List Char)
  | '\x22' :: cs => string? cs
  | _ => none

/-- A literal is read back, whatever follows it. -/
theorem literal?_literal
    (text : String)
    (rest : List Char) :
    literal? ((Text.literal text).toList ++ rest) = some (text, rest) := by
  have hform : (Text.literal text).toList ++ rest =
      '\x22' :: (text.toList.flatMap Text.literalChar ++ '\x22' :: rest) := by
    simp [Text.toList_literal]
  have hlength := Text.length_le_flatMap_literalChar text.toList
  rw [hform, literal?, string?, stringBody?_standsFor (standsFor_literal text.toList)]
  · simp
  · rw [List.length_append]
    omega

end Literals

end Json

open Text (StandsFor backslashes literal)

/-- A string literal of generated code is on one line.  Inside it, a quote stands only behind an odd
number of backslashes.  By the rules of JSON strings it stands for its text alone, and is read as
this text whatever follows it.  So the literals of two texts begin the same code only if the texts are
the same, and distinct texts have distinct literals. -/
theorem literal_reads_back
    (text : String) :
    ∃ inside : List Char,
      (literal text).toList = '\x22' :: (inside ++ ['\x22']) ∧
      (∀ c ∈ (literal text).toList, c ≠ '\n' ∧ c ≠ '\r') ∧
      (∀ before after, inside = before ++ '\x22' :: after → Odd (backslashes before)) ∧
      (∀ value, StandsFor Json.Item inside value ↔ value = text.toList) ∧
      (∀ rest, Json.literal? ((literal text).toList ++ rest) = some (text, rest)) ∧
      (∀ other rest rest', (literal text).toList ++ rest = (literal other).toList ++ rest' ↔
        text = other ∧ rest = rest') ∧
      (∀ texts : List String, literal text ∈ texts.map literal ↔ text ∈ texts) ∧
      (∀ texts : List String, (texts.map literal).Nodup ↔ texts.Nodup) := by
  have hstands := Json.standsFor_literal text.toList
  have hapart : ∀ s t rest rest', (literal s).toList ++ rest = (literal t).toList ++ rest' →
      s = t ∧ rest = rest' := by
    intro s t rest rest' heq
    have hread := Json.literal?_literal s rest
    rw [heq, Json.literal?_literal] at hread
    obtain ⟨rfl, rfl⟩ := Prod.mk.inj (Option.some.inj hread)
    exact ⟨rfl, rfl⟩
  have hinjective : Function.Injective literal := fun s t heq =>
    (hapart s t [] [] (by rw [heq])).1
  refine ⟨_, Text.toList_literal text, fun c hc => ?_, fun before after heq => ?_, fun value => ?_,
    Json.literal?_literal text, fun other rest rest' => ?_,
    fun texts => List.mem_map_of_injective hinjective, fun texts => List.nodup_map_iff hinjective⟩
  · have hcontrol : 0x20 ≤ c.toNat := by
      rw [Text.toList_literal, List.mem_cons, List.mem_append, List.mem_singleton] at hc
      rcases hc with rfl | hc | rfl
      · decide
      · exact hstands.forall_mem Json.Item.noControl c hc
      · decide
    constructor <;> rintro rfl <;> exact absurd hcontrol (by decide)
  · have hstart : Even (backslashes []) := by simp [backslashes]
    exact Json.odd_backslashes hstands hstart heq
  · exact ⟨fun h => Json.standsFor_unique h hstands, fun heq => heq ▸ hstands⟩
  · refine ⟨hapart text other rest rest', ?_⟩
    rintro ⟨rfl, rfl⟩
    rfl

end Schemata
