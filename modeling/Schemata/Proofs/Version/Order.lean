import Schemata.Package
import Schemata.Proofs.Text.Digits

/-!
# The order of versions is total

Each comparison of versions, of pre-releases and of identifiers is a comparison
of keys, one after the other, and so inherits its laws from the orders of
numbers and texts.  The order is consistent with equality: two identifiers of
digits with the same value and the same length are the same text, so only equal
versions compare as equal.

**Results.** `Version.cmp` and `Request.compareVersions` are transitive and
oriented, and compare only equal versions as equal.
-/

namespace Schemata

section Keys

variable {α β : Type}

/-- Values are compared by their keys. -/
theorem transCmp_on
    (f : α → β)
    {cmp : β → β → Ordering}
    (h : Std.TransCmp cmp) :
    Std.TransCmp fun a b => cmp (f a) (f b) :=
  { eq_swap := h.eq_swap
    isLE_trans := h.isLE_trans }

end Keys

namespace Version

section Identifiers

/-- The identifier is a number. -/
def isNumeric
    (a : String) :
    Bool :=
  a.toList.all Text.isDigit

/-- The value of a number, and zero for other identifiers. -/
def numericValue
    (a : String) :
    Nat :=
  if isNumeric a then Text.digitsValue a.toList else 0

/-- The number of digits of a number, and zero for other identifiers. -/
def numericLength
    (a : String) :
    Nat :=
  if isNumeric a then a.length else 0

/-- The text of an identifier that is no number. -/
def alphabetic
    (a : String) :
    String :=
  if isNumeric a then "" else a

/-- Identifiers are compared by four keys: numbers come first, by value and by length, and then
texts. -/
theorem compareIdentifier_eq :
    compareIdentifier =
      compareLex (compareOn fun a => !isNumeric a)
        (compareLex (compareOn numericValue)
          (compareLex (compareOn numericLength) (compareOn alphabetic))) := by
  funext a b
  have hunfold : ∀ c : String, c.toList.all Text.isDigit = isNumeric c := fun c => rfl
  cases ha : isNumeric a with
  | true =>
      cases hb : isNumeric b with
      | true =>
          simp [compareIdentifier, hunfold, compareLex, compareOn, numericValue, numericLength,
            alphabetic, ha, hb]
      | false =>
          simp [compareIdentifier, hunfold, compareLex, compareOn, ha, hb]
          rfl
  | false =>
      cases hb : isNumeric b with
      | true =>
          simp [compareIdentifier, hunfold, compareLex, compareOn, ha, hb]
          rfl
      | false =>
          simp [compareIdentifier, hunfold, compareLex, compareOn, numericValue, numericLength,
            alphabetic, ha, hb]

instance : Std.TransCmp compareIdentifier := by
  rw [compareIdentifier_eq]
  infer_instance

theorem eq_of_compareIdentifier
    {a b : String}
    (h : compareIdentifier a b = .eq) :
    a = b := by
  rw [compareIdentifier_eq] at h
  simp only [compareLex_eq_eq, compareOn, Std.LawfulEqOrd.compare_eq_iff_eq] at h
  obtain ⟨hkind, hvalue, hlength, htext⟩ := h
  cases ha : isNumeric a with
  | true =>
      have hb : isNumeric b = true := by
        simpa [ha] using hkind
      simp only [numericValue, numericLength, ha, hb, if_true] at hvalue hlength
      rw [← String.length_toList, ← String.length_toList] at hlength
      exact String.toList_injective (Text.digitsValue_inj (List.all_eq_true.mp ha)
        (List.all_eq_true.mp hb) hlength hvalue)
  | false =>
      have hb : isNumeric b = false := by
        simpa [ha] using hkind
      simpa [alphabetic, ha, hb] using htext

instance : Std.LawfulEqCmp compareIdentifier where
  eq_of_compare := eq_of_compareIdentifier

theorem compareIdentifiers_eq :
    compareIdentifiers = List.compareLex compareIdentifier := by
  funext as bs
  induction as generalizing bs with
  | nil =>
      cases bs with
      | nil =>
          rfl
      | cons b bs =>
          rfl
  | cons a as ih =>
      cases bs with
      | nil =>
          rfl
      | cons b bs =>
          rw [compareIdentifiers, ih, List.compareLex_cons_cons]

instance : Std.TransCmp compareIdentifiers := by
  rw [compareIdentifiers_eq]
  infer_instance

instance : Std.LawfulEqCmp compareIdentifiers := by
  rw [compareIdentifiers_eq]
  infer_instance

end Identifiers

section Versions

/-- A pre-release is compared by whether it is missing, and then by its identifiers. -/
theorem comparePre_eq :
    comparePre = compareLex (compareOn List.isEmpty) compareIdentifiers := by
  funext as bs
  cases as with
  | nil =>
      cases bs with
      | nil =>
          rfl
      | cons b bs =>
          rfl
  | cons a as =>
      cases bs with
      | nil =>
          rfl
      | cons b bs =>
          rfl

instance : Std.TransCmp comparePre := by
  rw [comparePre_eq]
  infer_instance

theorem cmp_eq :
    cmp =
      compareLex (compareOn major) (compareLex (compareOn minor) (compareLex (compareOn patch)
        (compareLex (fun a b => comparePre a.pre b.pre)
          (fun a b => compareIdentifiers a.build b.build)))) :=
  rfl

instance : Std.TransCmp cmp := by
  have hpre : Std.TransCmp fun a b : Version => comparePre a.pre b.pre :=
    transCmp_on pre inferInstance
  have hbuild : Std.TransCmp fun a b : Version => compareIdentifiers a.build b.build :=
    transCmp_on build inferInstance
  rw [cmp_eq]
  infer_instance

theorem eq_of_cmp
    {a b : Version}
    (h : cmp a b = .eq) :
    a = b := by
  rw [cmp_eq] at h
  simp only [compareLex_eq_eq, compareOn, Std.LawfulEqOrd.compare_eq_iff_eq,
    comparePre_eq] at h
  obtain ⟨hmajor, hminor, hpatch, ⟨-, hpre⟩, hbuild⟩ := h
  obtain ⟨major, minor, patch, pre, build⟩ := a
  obtain ⟨major', minor', patch', pre', build'⟩ := b
  rw [Version.mk.injEq]
  exact ⟨hmajor, hminor, hpatch, Std.LawfulEqCmp.eq_of_compare hpre,
    Std.LawfulEqCmp.eq_of_compare hbuild⟩

instance : Std.LawfulEqCmp cmp where
  eq_of_compare := eq_of_cmp

end Versions

end Version

namespace Request

/-- Versions that may be missing are compared like other values that may be. -/
theorem compareVersions_eq :
    compareVersions = @compare (Option Version) (@instOrdOption Version ⟨Version.cmp⟩) := by
  funext a b
  cases a with
  | none =>
      cases b with
      | none =>
          rfl
      | some v =>
          rfl
  | some v =>
      cases b with
      | none =>
          rfl
      | some w =>
          rfl

instance : Std.TransCmp compareVersions := by
  let order : Ord Version := ⟨Version.cmp⟩
  have hversion : Std.TransOrd Version := inferInstanceAs (Std.TransCmp Version.cmp)
  rw [compareVersions_eq]
  exact inferInstanceAs (Std.TransOrd (Option Version))

instance : Std.LawfulEqCmp compareVersions := by
  let order : Ord Version := ⟨Version.cmp⟩
  have hversion : Std.LawfulEqOrd Version := inferInstanceAs (Std.LawfulEqCmp Version.cmp)
  rw [compareVersions_eq]
  exact inferInstanceAs (Std.LawfulEqOrd (Option Version))

end Request

end Schemata
