import Schemata.Proofs.Naming.Words
import Schemata.Proofs.Resolve.FileOrder
import Schemata.Proofs.Schema.Ancestry

/-!
# Which namespaces are spelled alike

Packages have distinct namespaces, and this is checked while the parts of the
namespaces are as they are in the source.  Some targets spell the parts
afterwards.  Then two namespaces become one if their parts have the same
visible words, and also if the version of one reads like the last part of the
other.

**Results.**
* `namespaceSegments_upperCamel_eq_iff`: when two namespaces are spelled alike.
* `namespaceSegments_none_eq_iff`: parts that are left as they are keep
  namespaces apart.
* `Resolve.namespacesFit_of_resolve`: what is known of the namespaces of files
  that resolve.
* `Schema.NamespacesFit.packagesApart`: parts without underscores and versions
  in full are spelled apart.
-/

namespace Schemata

section Parts

/-- The name can be read from a text. -/
def PackageName.IsValid
    (name : PackageName) : Prop :=
  ∃ text, PackageName.parse? text = some name

theorem PackageName.IsValid.isPart
    {name : PackageName}
    (h : name.IsValid) :
    name.parts ≠ [] ∧ ∀ part ∈ name.parts, isPart part = true := by
  obtain ⟨text, htext⟩ := h
  simp only [parse?] at htext
  split at htext
  next hall =>
    obtain rfl := Option.some.inj htext
    refine ⟨?_, List.all_eq_true.mp hall⟩
    simp [Text.split, Naming.splitWhen_eq_splitOnP, List.splitOnP_ne_nil]
  next =>
    cases htext

/-- A part is a small letter with small letters, digits and underscores after it. -/
theorem PackageName.exists_cons_of_isPart
    {part : String}
    (h : isPart part = true) :
    ∃ c cs, part.toList = c :: cs ∧ c.isLower = true ∧
      ∀ d ∈ cs, Naming.isSmall d = true ∨ d = '_' := by
  unfold isPart at h
  split at h
  · cases h
  next c cs hpart =>
    obtain ⟨hc, hcs⟩ := Bool.and_eq_true_iff.mp h
    refine ⟨c, cs, hpart, hc, fun d hd => ?_⟩
    have hdigit : Text.isDigit d = d.isDigit := rfl
    have hd := List.all_eq_true.mp hcs d hd
    simpa [hdigit, Naming.isSmall] using hd

theorem PackageName.isIdentText_of_isPart
    {part : String}
    (h : isPart part = true) :
    Naming.IsIdentText part := by
  obtain ⟨c, cs, hpart, hc, hcs⟩ := exists_cons_of_isPart h
  intro d hd
  rw [hpart] at hd
  rcases List.mem_cons.mp hd with rfl | htail
  · simp [Naming.isIdentChar, Char.isAlphanum, Char.isAlpha, hc]
  · rcases hcs d htail with hsmall | rfl
    · simp [Naming.isIdentChar, (Naming.SmallCase.of_isSmall hsmall).alphanum]
    · rfl

/-- A word that has begun is not lost. -/
theorem Naming.wordsFrom_ne_nil
    {screaming : Bool}
    {current : List Char}
    (h : current ≠ [])
    (cs : List Char) :
    wordsFrom screaming current cs ≠ [] := by
  have hclosed : ∀ {current : List Char}, current ≠ [] → ∀ rest, closeWord current rest ≠ [] := by
    intro current h rest
    rw [closeWord, if_neg (by simpa using h)]
    exact List.cons_ne_nil current rest
  induction cs generalizing current with
  | nil =>
      exact hclosed h []
  | cons c cs ih =>
      rw [wordsFrom]
      split
      · split
        · exact hclosed h _
        · exact ih (List.concat_ne_nil _ _)
      · exact hclosed h _

/-- Something is left of a part of a package name when it is spelled. -/
theorem Naming.upperCamel_ne_nil_of_isPart
    {part : String}
    (h : PackageName.isPart part = true) :
    (Casing.upperCamel.apply part).toList ≠ [] := by
  obtain ⟨c, cs, hpart, hlower, -⟩ := PackageName.exists_cons_of_isPart h
  have hwords : wordLists part ≠ [] := by
    have hcase := SmallCase.of_isSmall (c := c) (by simp [isSmall, hlower])
    rw [wordLists, hpart, wordsFrom, if_pos hcase.alphanum, hcase.notUpper, Bool.false_and,
      if_neg Bool.false_ne_true]
    exact wordsFrom_ne_nil (List.concat_ne_nil _ _) cs
  obtain ⟨w, ws, hws⟩ := List.exists_cons_of_ne_nil hwords
  have hmem : w ∈ wordLists part := hws ▸ List.mem_cons_self
  obtain ⟨d, ds, rfl⟩ := List.exists_cons_of_ne_nil (isWord_of_mem_wordLists hmem).1
  rw [toList_upperCamel, hws]
  exact List.cons_ne_nil _ _

/-- A part without underscores is one word. -/
theorem Naming.visibleWords_of_isPart
    {part : String}
    (h : PackageName.isPart part = true)
    (hplain : '_' ∉ part.toList) :
    visibleWords part = [part.toList] := by
  obtain ⟨c, cs, hpart, hc, hcs⟩ := PackageName.exists_cons_of_isPart h
  have hsmall : ∀ d ∈ part.toList, isSmall d = true := by
    intro d hd
    rw [hpart] at hd
    rcases List.mem_cons.mp hd with rfl | htail
    · simp [isSmall, hc]
    · refine (hcs d htail).resolve_right fun heq => hplain ?_
      rw [hpart, ← heq]
      exact hd
  have hlists := wordLists_of_isAlphanum fun d hd => (SmallCase.of_isSmall (hsmall d hd)).alphanum
  have hwords := wordsFrom_append [] hsmall []
  rw [List.append_nil, List.nil_append] at hwords
  rw [visibleWords, hlists, hwords, hpart]
  simp [wordsFrom, closeWord, joinDigits, beginsWithLetter, hc]

end Parts

namespace Namespace

/-- What every namespace of a package has: parts, each beginning with a small letter, and a version
that begins with another sign. -/
structure WellFormed
    (ns : Namespace) : Prop where
  ne_nil : ns.parts ≠ []
  parts : ∀ part ∈ ns.parts, PackageName.isPart part = true
  version : ∀ v, ns.version = some v → ∃ c cs, v.toList = c :: cs ∧ (c = 'V' ∨ c = '_')
  versionText : ∀ v, ns.version = some v → Naming.IsIdentText v

theorem isIdentText_preText
    (v : Version) :
    Naming.IsIdentText (preText v) := by
  unfold preText
  split
  · decide
  · refine (Naming.isIdentText_append _ _).mpr ⟨by decide, fun c hc => ?_⟩
    rw [String.toList_ofList] at hc
    obtain ⟨d, -, rfl⟩ := List.mem_map.mp hc
    split
    next halphanum => simp [Naming.isIdentChar, halphanum]
    next => rfl

theorem isIdentText_symbolic
    (v : Version)
    (level : Level) :
    Naming.IsIdentText (symbolic v level) := by
  cases level <;>
    simp only [symbolic, Naming.isIdentText_append, Naming.isIdentText_toString,
      isIdentText_preText, and_true] <;>
    decide

theorem isIdentText_underscored
    (v : Version) :
    Naming.IsIdentText (underscored v) := by
  simp only [underscored, Naming.isIdentText_append, Naming.isIdentText_toString,
    isIdentText_preText, and_true]
  decide

theorem exists_cons_symbolic
    (v : Version)
    (level : Level) :
    ∃ cs, (symbolic v level).toList = 'V' :: cs := by
  cases level <;> exact ⟨_, by simp [symbolic, String.toList_append]; rfl⟩

theorem exists_cons_underscored
    (v : Version) :
    ∃ cs, (underscored v).toList = '_' :: cs :=
  ⟨_, by simp [underscored, String.toList_append]; rfl⟩

theorem ofPackage_wellFormed
    (scheme : VersionScheme)
    (packages : List Identity)
    {identity : Identity}
    (h : identity.name.IsValid) :
    (ofPackage scheme packages identity).WellFormed where
  ne_nil := h.isPart.1
  parts := h.isPart.2
  version := by
    intro text htext
    obtain ⟨v, -, rfl⟩ := Option.map_eq_some_iff.mp htext
    cases scheme with
    | underscored =>
        obtain ⟨cs, hcs⟩ := exists_cons_underscored v
        exact ⟨'_', cs, hcs, Or.inr rfl⟩
    | major =>
        obtain ⟨cs, hcs⟩ := exists_cons_symbolic v .major
        exact ⟨'V', cs, hcs, Or.inl rfl⟩
    | minimal =>
        obtain ⟨cs, hcs⟩ := exists_cons_symbolic v (minimalLevel packages identity.name v)
        exact ⟨'V', cs, hcs, Or.inl rfl⟩
  versionText := by
    intro text htext
    obtain ⟨v, -, rfl⟩ := Option.map_eq_some_iff.mp htext
    cases scheme with
    | underscored => exact isIdentText_underscored v
    | major => exact isIdentText_symbolic v .major
    | minimal => exact isIdentText_symbolic v _

/-- The version of the first namespace reads like the last part of the second, and their other
parts have the same visible words. -/
structure VersionLikePart
    (a b : Namespace) : Prop where
  unversioned : b.version = none
  parts : ∃ before last, b.parts = before ++ [last] ∧
    a.parts.map Naming.visibleWords = before.map Naming.visibleWords ∧
      a.version = some (Naming.Casing.upperCamel.apply last)

/-- Two namespaces are spelled alike. -/
def Alike
    (a b : Namespace) : Prop :=
  (a.parts.map Naming.visibleWords = b.parts.map Naming.visibleWords ∧
      a.version = b.version) ∨
    VersionLikePart a b ∨ VersionLikePart b a

/-- A version is read as a part where the spelled lists agree. -/
theorem versionLikePart_iff
    {a b : Namespace}
    {v : String}
    (ha : a.version = some v)
    (hb : b.version = none) :
    a.parts.map Naming.Casing.upperCamel.apply ++ [v] =
        b.parts.map Naming.Casing.upperCamel.apply ↔
      VersionLikePart a b := by
  constructor
  · intro h
    obtain ⟨before, rest, hparts, hbefore, hrest⟩ := List.map_eq_append_iff.mp h.symm
    obtain ⟨last, rfl, hlast⟩ := List.map_eq_singleton_iff.mp hrest
    refine ⟨hb, before, last, hparts, (Naming.map_upperCamel_eq_iff _ _).mp hbefore.symm, ?_⟩
    rw [ha, hlast]
  · rintro ⟨-, before, last, hparts, hsame, hversion⟩
    obtain rfl := Option.some.inj (ha.symm.trans hversion)
    rw [hparts, List.map_append, (Naming.map_upperCamel_eq_iff _ _).mpr hsame]
    rfl

/-- Parts without underscores, and a version that begins with one. -/
structure IsSimple
    (ns : Namespace) : Prop where
  parts : ∀ part ∈ ns.parts, '_' ∉ part.toList
  version : ∀ v, ns.version = some v → ∃ cs, v.toList = '_' :: cs

theorem IsSimple.not_versionLikePart
    {a b : Namespace}
    (ha : a.IsSimple) :
    ¬VersionLikePart a b := by
  rintro ⟨-, before, last, -, -, hversion⟩
  obtain ⟨cs, hcs⟩ := ha.version _ hversion
  exact Naming.underscore_not_mem_upperCamel last (hcs ▸ List.mem_cons_self)

/-- Simple namespaces are spelled apart. -/
theorem IsSimple.eq_of_alike
    {a b : Namespace}
    (hwa : a.WellFormed)
    (hwb : b.WellFormed)
    (ha : a.IsSimple)
    (hb : b.IsSimple)
    (h : a.Alike b) :
    a = b := by
  rcases h with ⟨hwords, hversion⟩ | h | h
  · have hparts : ∀ {ns : Namespace}, ns.WellFormed → ns.IsSimple →
        ns.parts.map Naming.visibleWords = ns.parts.map fun part => [part.toList] :=
      fun hwf h => List.map_congr_left fun part hpart =>
        Naming.visibleWords_of_isPart (hwf.parts part hpart) (h.parts part hpart)
    rw [hparts hwa ha, hparts hwb hb] at hwords
    have hinjective : Function.Injective fun part : String => [part.toList] :=
      fun p q heq => String.toList_inj.mp (List.singleton_inj.mp heq)
    obtain ⟨aparts, aversion⟩ := a
    obtain ⟨bparts, bversion⟩ := b
    exact Namespace.mk.injEq .. ▸ ⟨hinjective.list_map hwords, hversion⟩
  · exact absurd h ha.not_versionLikePart
  · exact absurd h hb.not_versionLikePart

end Namespace

namespace Emit

open Naming (Casing)

/-- When two namespaces have the same segments after their parts are spelled. -/
theorem namespaceSegments_upperCamel_eq_iff
    (a b : Namespace) :
    namespaceSegments (some .upperCamel) a = namespaceSegments (some .upperCamel) b ↔
      a.Alike b := by
  have hsome : ∀ {a b : Namespace} {v : String}, b.version = some v → ¬a.VersionLikePart b :=
    fun hb h => by cases hb.symm.trans h.unversioned
  have hnone : ∀ {a b : Namespace}, a.version = none → ¬a.VersionLikePart b := by
    rintro a b ha ⟨-, before, last, -, -, hversion⟩
    cases ha.symm.trans hversion
  simp only [namespaceSegments, Namespace.Alike]
  cases ha : a.version with
  | none =>
      cases hb : b.version with
      | none =>
          simp [Naming.map_upperCamel_eq_iff, hnone ha, hnone hb]
      | some w =>
          rw [eq_comm, Option.toList_none, List.append_nil, Option.toList_some,
            Namespace.versionLikePart_iff hb ha]
          simp [hnone ha]
  | some v =>
      cases hb : b.version with
      | none =>
          rw [Option.toList_none, List.append_nil, Option.toList_some,
            Namespace.versionLikePart_iff ha hb]
          simp [hnone hb]
      | some w =>
          simp [Naming.map_upperCamel_eq_iff, hsome ha, hsome hb]

/-- Parts that are left as they are keep namespaces apart. -/
theorem namespaceSegments_none_eq_iff
    {a b : Namespace}
    (ha : a.WellFormed)
    (hb : b.WellFormed) :
    namespaceSegments none a = namespaceSegments none b ↔ a = b := by
  -- a version in the place of a part would begin with a small letter
  have hmixed : ∀ {a b : Namespace} {v : String}, a.WellFormed → b.WellFormed →
      a.version = some v → a.parts ++ [v] ≠ b.parts := by
    intro a b v ha hb hv heq
    obtain ⟨c, cs, hcs, hc⟩ := ha.version v hv
    obtain ⟨d, ds, hds, hd, -⟩ := PackageName.exists_cons_of_isPart
      (hb.parts v (heq ▸ List.mem_append_right _ (List.mem_singleton_self v)))
    obtain ⟨rfl, -⟩ := List.cons.inj (hcs.symm.trans hds)
    rcases hc with rfl | rfl <;> cases hd
  obtain ⟨aparts, aversion⟩ := a
  obtain ⟨bparts, bversion⟩ := b
  cases aversion with
  | none =>
      cases bversion with
      | none => simp [namespaceSegments]
      | some w => simpa [namespaceSegments] using (hmixed hb ha rfl).symm
  | some v =>
      cases bversion with
      | none => simpa [namespaceSegments] using hmixed ha hb rfl
      | some w => simp [namespaceSegments]

theorem isIdentText_namespaceSegments_upperCamel
    {ns : Namespace}
    (h : ns.WellFormed) :
    ∀ segment ∈ namespaceSegments (some .upperCamel) ns, Naming.IsIdentText segment := by
  intro segment hsegment
  rcases List.mem_append.mp hsegment with hpart | hversion
  · obtain ⟨part, -, rfl⟩ := List.mem_map.mp hpart
    exact Naming.isIdentText_upperCamel part
  · exact h.versionText segment (Option.mem_toList.mp hversion)

theorem isIdentText_namespaceSegments_none
    {ns : Namespace}
    (h : ns.WellFormed) :
    ∀ segment ∈ namespaceSegments none ns, Naming.IsIdentText segment := by
  intro segment hsegment
  rcases List.mem_append.mp hsegment with hpart | hversion
  · obtain ⟨part, hmem, rfl⟩ := List.mem_map.mp hpart
    exact PackageName.isIdentText_of_isPart (h.parts part hmem)
  · exact h.versionText segment (Option.mem_toList.mp hversion)

end Emit

/-- What is known of the namespaces of a schema. -/
structure Schema.NamespacesFit
    (s : Schema) : Prop where
  wellFormed : ∀ p ∈ s.packages, p.ns.WellFormed
  distinct : (s.packages.map (·.ns)).Nodup

namespace Schema

variable {s : Schema}
variable {i j : Nat}

theorem NamespacesFit.wellFormed_package
    (hfit : s.NamespacesFit)
    (hi : i < s.packages.length) :
    (s.package i).ns.WellFormed :=
  hfit.wellFormed _ (s.package_mem hi)

/-- A namespace belongs to one package. -/
theorem NamespacesFit.eq_of_ns
    (hfit : s.NamespacesFit)
    (hi : i < s.packages.length)
    (hj : j < s.packages.length)
    (h : (s.package i).ns = (s.package j).ns) :
    i = j := by
  have hget : ∀ {k}, k < s.packages.length →
      (s.packages.map (·.ns))[k]? = some (s.package k).ns := by
    intro k hk
    rw [List.getElem?_map, s.getElem?_package hk, Option.map_some]
  refine (List.getElem?_inj (by simpa using hi) hfit.distinct).mp ?_
  rw [hget hi, hget hj, h]

/-- No two packages are spelled alike. -/
def PackagesApart
    (s : Schema) : Prop :=
  ∀ i < s.packages.length, ∀ j < s.packages.length,
    (s.package i).ns.Alike (s.package j).ns → i = j

/-- Packages with simple namespaces are spelled apart. -/
theorem NamespacesFit.packagesApart
    (hfit : s.NamespacesFit)
    (hsimple : ∀ p ∈ s.packages, p.ns.IsSimple) :
    s.PackagesApart := by
  intro i hi j hj halike
  refine hfit.eq_of_ns hi hj ?_
  exact (hsimple _ (s.package_mem hi)).eq_of_alike (hfit.wellFormed_package hi)
    (hfit.wellFormed_package hj) (hsimple _ (s.package_mem hj)) halike

end Schema

namespace Resolve

section Resolved

variable {options : ResolveOptions}
variable {files : List SourceFile}
variable {r : Resolved}
variable (h : resolve options files = .ok r)

include h

/-- The packages have the namespaces that their files are assigned. -/
theorem map_ns_of_resolve :
    r.schema.packages.map (·.ns) = assigned options.scheme files ∧
      (assigned options.scheme files).Nodup := by
  obtain ⟨hclean, rfl⟩ := (resolve_eq_ok_iff options files r).mp h
  rw [errors_schema_eq_nil_iff, errors_namespaces_eq_nil_iff] at hclean
  obtain ⟨⟨hdistinct, hassigned⟩, -⟩ := hclean
  refine ⟨List.ext_getElem? fun index => ?_, hassigned⟩
  rw [List.getElem?_map, getElem?_packages options files hdistinct hassigned, assigned,
    List.map_map, List.getElem?_map, Option.map_map]
  rfl

theorem namespacesFit_of_resolve
    (hnames : ∀ f ∈ files, f.identity.name.IsValid) :
    r.schema.NamespacesFit := by
  obtain ⟨hns, hassigned⟩ := map_ns_of_resolve h
  refine ⟨fun p hp => ?_, hns ▸ hassigned⟩
  have hmem : p.ns ∈ assigned options.scheme files := hns ▸ List.mem_map_of_mem hp
  obtain ⟨identity, hidentity, hp⟩ := List.mem_map.mp hmem
  obtain ⟨f, hf, rfl⟩ := List.mem_map.mp hidentity
  rw [← hp]
  exact Namespace.ofPackage_wellFormed options.scheme _ (hnames f hf)

/-- Namespaces are simple where versions are kept in full and names have no underscores. -/
theorem isSimple_of_underscored
    (hscheme : options.scheme = .underscored)
    (hplain : ∀ f ∈ files, ∀ part ∈ f.identity.name.parts, '_' ∉ part.toList) :
    ∀ p ∈ r.schema.packages, p.ns.IsSimple := by
  obtain ⟨hns, -⟩ := map_ns_of_resolve h
  intro p hp
  have hmem : p.ns ∈ assigned options.scheme files := hns ▸ List.mem_map_of_mem hp
  obtain ⟨identity, hidentity, hp⟩ := List.mem_map.mp hmem
  obtain ⟨f, hf, rfl⟩ := List.mem_map.mp hidentity
  rw [← hp, hscheme]
  refine ⟨hplain f hf, fun v hv => ?_⟩
  obtain ⟨version, -, rfl⟩ := Option.map_eq_some_iff.mp hv
  exact Namespace.exists_cons_underscored version

end Resolved

end Resolve

end Schemata
