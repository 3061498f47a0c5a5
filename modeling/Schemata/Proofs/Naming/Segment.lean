import Schemata.Proofs.Resolve.FileOrder
import Schemata.Proofs.Text.Cut
import Schemata.Proofs.Text.Digits

/-!
# How versions are told apart in namespaces

The segment of a version is made of its first numbers, with underscores between
them.  No number has an underscore, so the numbers can be read back from the
segment, and segments with fewer or more numbers are never the same.

Under the scheme of fewest numbers each version chooses how many of them to keep
by looking at the other versions of its package.  The choices need not agree: one
version may keep one number and another one three.  They are still told apart, since
a version that keeps few numbers differs from all others in these.

**Results.**
* `joinNumbers_injective`: the numbers of a segment can be read back.
* `shortest_symbolic`: which numbers a version keeps.
* `Shortest.eq_of_eq`: versions of one package are told apart by what they keep.
* `collisions_eq`: which collisions are reported.
* `assign_spec`: when packages have distinct namespaces, and what is said if they have not.
-/

namespace Schemata
namespace Namespace

section Numbers

/-- Numbers with underscores between them. -/
def joinNumbers
    (numbers : List Nat) :
    String :=
  String.intercalate "_" (numbers.map toString)

/-- Numbers can be read back when they are joined. -/
theorem joinNumbers_injective
    {ms ns : List Nat}
    (hms : ms ≠ [])
    (hns : ns ≠ [])
    (h : joinNumbers ms = joinNumbers ns) :
    ms = ns := by
  have hsplit : ∀ {ks : List Nat}, ks ≠ [] →
      Text.split '_' (joinNumbers ks) = ks.map toString := by
    intro ks hks
    refine Text.split_intercalate (by simpa using hks) fun piece hpiece => ?_
    obtain ⟨n, -, rfl⟩ := List.mem_map.mp hpiece
    exact Text.underscore_not_mem_toString n
  refine Text.toString_nat_injective.list_map ?_
  rw [← hsplit hms, h, hsplit hns]

/-- The numbers of a version up to a level. -/
def numbersTo
    (v : Version) :
    Level → List Nat
  | .major => [v.major]
  | .minor => [v.major, v.minor]
  | .patch => [v.major, v.minor, v.patch]

theorem numbersTo_ne_nil
    (v : Version)
    (level : Level) :
    numbersTo v level ≠ [] := by
  cases level <;> exact List.cons_ne_nil _ _

/-- The version is its numbers alone. -/
structure IsPlain
    (v : Version) : Prop where
  pre : v.pre = []
  build : v.build = []

variable {v w : Version}

theorem IsPlain.preText
    (hv : IsPlain v) :
    preText v = "" := by
  rw [Namespace.preText, hv.pre]
  rfl

/-- Two numbers that are joined, and three. -/
theorem joinNumbers_cons_cons
    (m n : Nat)
    (ns : List Nat) :
    joinNumbers (m :: n :: ns) = toString m ++ ("_" ++ joinNumbers (n :: ns)) := by
  simp [joinNumbers, String.append_assoc]

theorem joinNumbers_singleton
    (n : Nat) :
    joinNumbers [n] = toString n := by
  simp [joinNumbers]

theorem IsPlain.symbolic_eq
    (hv : IsPlain v)
    (level : Level) :
    symbolic v level = "V" ++ joinNumbers (numbersTo v level) := by
  cases level <;>
    simp only [symbolic, numbersTo, joinNumbers_cons_cons, joinNumbers_singleton, hv.preText,
      String.append_assoc, String.append_empty] <;>
    rfl

theorem IsPlain.underscored_eq
    (hv : IsPlain v) :
    underscored v = "_" ++ joinNumbers (numbersTo v .patch) := by
  simp only [underscored, numbersTo, joinNumbers_cons_cons, joinNumbers_singleton, hv.preText,
    String.append_assoc, String.append_empty]
  rfl

/-- Plain versions are told apart by their numbers. -/
theorem IsPlain.eq_of_numbersTo
    (hv : IsPlain v)
    (hw : IsPlain w)
    (h : numbersTo v .patch = numbersTo w .patch) :
    v = w := by
  obtain ⟨major, minor, patch, pre, build⟩ := v
  obtain ⟨major', minor', patch', pre', build'⟩ := w
  obtain ⟨rfl, rfl⟩ := hv
  obtain ⟨rfl, rfl⟩ := hw
  simpa [numbersTo] using h

theorem IsPlain.underscored_injective
    (hv : IsPlain v)
    (hw : IsPlain w)
    (h : underscored v = underscored w) :
    v = w := by
  rw [hv.underscored_eq, hw.underscored_eq, String.append_right_inj] at h
  exact hv.eq_of_numbersTo hw
    (joinNumbers_injective (numbersTo_ne_nil v _) (numbersTo_ne_nil w _) h)

end Numbers

section Shortest

variable (packages : List Identity)
variable (name : PackageName)
variable (v w : Version)

/-- The package is there in another version. -/
def OtherVersion : Prop :=
  (⟨name, some w⟩ : Identity) ∈ packages ∧ w ≠ v

/-- The segment keeps the fewest numbers in which the version differs from the other versions of
its package, or all numbers. -/
inductive Shortest : String → Prop
  | major
      (h : ∀ w, OtherVersion packages name v w → w.major ≠ v.major) :
      Shortest s!"V{v.major}"
  | minor
      (hmajor : ∃ w, OtherVersion packages name v w ∧ w.major = v.major)
      (h : ∀ w, OtherVersion packages name v w → w.major = v.major → w.minor ≠ v.minor) :
      Shortest s!"V{v.major}_{v.minor}"
  | patch
      (hminor : ∃ w, OtherVersion packages name v w ∧ w.major = v.major ∧ w.minor = v.minor) :
      Shortest s!"V{v.major}_{v.minor}_{v.patch}"

variable {packages name v w}

theorem mem_siblings :
    w ∈ siblings packages name v ↔ OtherVersion packages name v w := by
  rw [siblings, List.mem_filterMap, OtherVersion]
  constructor
  · rintro ⟨⟨name', version⟩, hmem, hpick⟩
    split at hpick
    · rename_i hname
      cases version with
      | none => cases hpick
      | some u =>
          dsimp only at hpick
          split at hpick
          · cases hpick
          · rename_i hne
            obtain rfl := Option.some.inj hpick
            exact ⟨hname ▸ hmem, hne⟩
    · cases hpick
  · rintro ⟨hmem, hne⟩
    exact ⟨_, hmem, by simp [hne]⟩

/-- What a segment keeps tells the version apart from the other ones, unless it keeps all. -/
theorem Shortest.exists_level
    {segment : String}
    (h : Shortest packages name v segment) :
    ∃ level, segment = "V" ++ joinNumbers (numbersTo v level) ∧
      (level = .patch ∨
        ∀ w, OtherVersion packages name v w → numbersTo w level ≠ numbersTo v level) := by
  cases h with
  | major h =>
      refine ⟨.major, ?_, .inr fun w hw heq => h w hw (by simpa [numbersTo] using heq)⟩
      simp only [numbersTo, joinNumbers_singleton]
      rfl
  | minor hmajor h =>
      refine ⟨.minor, ?_, .inr fun w hw heq => ?_⟩
      · simp only [numbersTo, joinNumbers_cons_cons, joinNumbers_singleton, String.append_assoc]
        rfl
      · simp only [numbersTo, List.cons.injEq, and_true] at heq
        exact h w hw heq.1 heq.2
  | patch hminor =>
      refine ⟨.patch, ?_, .inl rfl⟩
      simp only [numbersTo, joinNumbers_cons_cons, joinNumbers_singleton, String.append_assoc]
      rfl

theorem level_eq_of_numbersTo
    {level level' : Level}
    (h : numbersTo v level = numbersTo w level') :
    level = level' := by
  have hlength := congrArg List.length h
  cases level <;> cases level' <;> first | rfl | cases hlength

/-- Two versions of one package never have the same shortest segment. -/
theorem Shortest.eq_of_eq
    {segment : String}
    (hv : Shortest packages name v segment)
    (hw : Shortest packages name w segment)
    (hother : OtherVersion packages name v w)
    (hplain : IsPlain v)
    (hplain' : IsPlain w) :
    v = w := by
  obtain ⟨level, rfl, hapart⟩ := hv.exists_level
  obtain ⟨level', heq, -⟩ := hw.exists_level
  rw [String.append_right_inj] at heq
  have hnumbers := joinNumbers_injective (numbersTo_ne_nil v level) (numbersTo_ne_nil w level') heq
  obtain rfl := level_eq_of_numbersTo hnumbers
  rcases hapart with rfl | hapart
  · exact hplain.eq_of_numbersTo hplain' hnumbers
  · exact absurd hnumbers.symm (hapart w hother)

/-- Every version of every package is its numbers alone. -/
def AllPlain
    (packages : List Identity) : Prop :=
  ∀ p ∈ packages, ∀ v, p.version = some v → IsPlain v

variable (hplain : AllPlain packages)
variable (hv : (⟨name, some v⟩ : Identity) ∈ packages)

include hplain hv

theorem all_symbolic_ne_iff
    (level : Level) :
    (siblings packages name v).all (fun w => symbolic w level != symbolic v level) = true ↔
      ∀ w, OtherVersion packages name v w → numbersTo w level ≠ numbersTo v level := by
  have hiff : ∀ w, OtherVersion packages name v w →
      (symbolic w level = symbolic v level ↔ numbersTo w level = numbersTo v level) := by
    intro w hw
    rw [(hplain _ hw.1 w rfl).symbolic_eq, (hplain _ hv v rfl).symbolic_eq,
      String.append_right_inj]
    exact ⟨joinNumbers_injective (numbersTo_ne_nil w _) (numbersTo_ne_nil v _),
      congrArg joinNumbers⟩
  simp only [List.all_eq_true, mem_siblings, bne_iff_ne]
  exact forall₂_congr fun w hw => not_congr (hiff w hw)

/-- The segment of a version under the scheme of fewest numbers. -/
theorem shortest_symbolic :
    Shortest packages name v (symbolic v (minimalLevel packages name v)) := by
  have hmajor := all_symbolic_ne_iff hplain hv .major
  have hminor := all_symbolic_ne_iff hplain hv .minor
  simp only [numbersTo, ne_eq, List.cons.injEq, and_true] at hmajor hminor
  unfold minimalLevel
  dsimp only
  split
  next h =>
    exact .major (hmajor.mp h)
  next hsame =>
    rw [hmajor] at hsame
    push Not at hsame
    split
    next h =>
      exact .minor hsame fun w hw hw' hw'' => hminor.mp h w hw ⟨hw', hw''⟩
    next hsame' =>
      rw [hminor] at hsame'
      push Not at hsame'
      rw [(hplain _ hv v rfl).symbolic_eq]
      exact .patch hsame'

end Shortest

section Collisions

variable (ns : Identity → Namespace)

/-- The collision of a package with the first of the packages before it that has its namespace. -/
def collision?
    (before : List Identity)
    (p : Identity) :
    Option NamespaceCollision :=
  (before.find? (ns · = ns p)).map fun first =>
    ⟨(ns p).display, first.display, p.display⟩

/-- The collisions of packages with those before them, in their order. -/
def collisionsFrom
    (before packages : List Identity) :
    List NamespaceCollision :=
  (List.range packages.length).filterMap fun i =>
    packages[i]?.bind (collision? ns (before ++ packages.take i))

variable {ns}
variable {before packages : List Identity}

theorem collisionsFrom_cons
    (p : Identity) :
    collisionsFrom ns before (p :: packages) =
      (collision? ns before p).toList ++ collisionsFrom ns (before ++ [p]) packages := by
  rw [collisionsFrom, List.length_cons, List.range_succ_eq_map, List.filterMap_cons,
    List.filterMap_map]
  have htail : ((fun i => (p :: packages)[i]?.bind
        (collision? ns (before ++ (p :: packages).take i))) ∘ Nat.succ) =
      fun i => packages[i]?.bind (collision? ns ((before ++ [p]) ++ packages.take i)) := by
    funext i
    simp
  rw [htail, ← collisionsFrom]
  simp only [List.getElem?_cons_zero, List.take_zero, List.append_nil, Option.bind_some]
  cases collision? ns before p <;> rfl

theorem find?_append_singleton_ne
    {n : Namespace}
    {p : Identity}
    (h : ns p = n → (before.find? (ns · = n)).isSome) :
    (before ++ [p]).find? (ns · = n) = before.find? (ns · = n) := by
  rw [List.find?_append]
  cases hfind : before.find? (ns · = n) with
  | some first =>
      rfl
  | none =>
      rw [Option.none_or, List.find?_singleton, if_neg]
      intro heq
      simpa [hfind] using h (by simpa using heq)

/-- The owners of namespaces are the first packages that have them: this is all the loop needs to
know of the packages before. -/
theorem collisions_eq
    {owners : List (Namespace × Identity)}
    (hsame : ∀ n, (owners.find? (·.1 = n)).map Prod.snd = before.find? (ns · = n)) :
    collisions owners (packages.map fun p => (ns p, p)) = collisionsFrom ns before packages := by
  induction packages generalizing owners before with
  | nil =>
      rfl
  | cons p packages ih =>
      rw [List.map_cons, collisions, collisionsFrom_cons, collision?, ← hsame (ns p)]
      cases hfind : owners.find? (·.1 = ns p) with
      | some owner =>
          obtain ⟨n, first⟩ := owner
          dsimp only [Option.map_some, Option.toList_some, List.singleton_append]
          congr 1
          refine ih fun n => ?_
          rw [hsame n, find?_append_singleton_ne]
          rintro rfl
          rw [← hsame (ns p), hfind]
          rfl
      | none =>
          refine ih fun n => ?_
          rw [List.find?_append, List.find?_append, ← hsame n, Option.map_or,
            List.find?_singleton, List.find?_singleton]
          congr 1
          by_cases heq : ns p = n <;> simp [heq]

theorem collisions_zip
    (ns : Identity → Namespace)
    (packages : List Identity) :
    collisions [] ((packages.map ns).zip packages) = collisionsFrom ns [] packages := by
  have hzip : (packages.map ns).zip packages = packages.map fun p => (ns p, p) := by
    induction packages with
    | nil =>
        rfl
    | cons p packages ih =>
        rw [List.map_cons, List.zip_cons_cons, ih, List.map_cons]
  rw [hzip]
  exact collisions_eq fun _ => rfl

/-- A package collides when one before it has its namespace, and the first of these is named. -/
theorem collision?_eq_some_iff
    {p : Identity}
    {c : NamespaceCollision} :
    collision? ns before p = some c ↔
      ∃ earlier first later, before = earlier ++ first :: later ∧ ns first = ns p ∧
        (∀ q ∈ earlier, ns q ≠ ns p) ∧ c = ⟨(ns p).display, first.display, p.display⟩ := by
  simp only [collision?, Option.map_eq_some_iff, List.find?_eq_some_iff_append, decide_eq_true_eq,
    Bool.not_eq_eq_eq_not, Bool.not_true, decide_eq_false_iff_not]
  constructor
  · rintro ⟨first, ⟨hfirst, earlier, later, hbefore, hearlier⟩, rfl⟩
    exact ⟨earlier, first, later, hbefore, hfirst, hearlier, rfl⟩
  · rintro ⟨earlier, first, later, hbefore, hfirst, hearlier, rfl⟩
    exact ⟨first, ⟨hfirst, earlier, later, hbefore, hearlier⟩, rfl⟩

end Collisions

section Assign

variable (scheme : VersionScheme)
variable (packages : List Identity)

/-- What comes of packages whose namespaces are distinct, and of others. -/
inductive Assigned : Except (List NamespaceCollision) (List Namespace) → Prop
  | distinct
      (h : (packages.map (ofPackage scheme packages)).Nodup) :
      Assigned (.ok (packages.map (ofPackage scheme packages)))
  | shared
      (h : ¬ (packages.map (ofPackage scheme packages)).Nodup) :
      Assigned (.error (collisionsFrom (ofPackage scheme packages) [] packages))

theorem assigned_assign :
    Assigned scheme packages (assign scheme packages) := by
  have hnil : collisionsFrom (ofPackage scheme packages) [] packages = [] ↔
      (packages.map (ofPackage scheme packages)).Nodup := by
    rw [← collisions_zip, collisions_eq_nil_iff, List.map_fst_zip (by simp)]
    simp
  unfold assign
  dsimp only
  rw [collisions_zip]
  split
  next hcollisions =>
    exact .distinct (hnil.mp hcollisions)
  next hcollisions =>
    exact .shared (hnil.not.mp hcollisions)

variable {scheme packages}

theorem AllPlain.ofPackage_injOn
    (hplain : AllPlain packages)
    (hscheme : scheme ≠ .major) :
    ∀ p ∈ packages, ∀ q ∈ packages,
      ofPackage scheme packages p = ofPackage scheme packages q → p = q := by
  rintro ⟨name, version⟩ hp ⟨name', version'⟩ hq heq
  simp only [ofPackage, Namespace.mk.injEq] at heq
  obtain ⟨hparts, hversion⟩ := heq
  obtain rfl : name = name' := by
    cases name
    cases name'
    exact congrArg PackageName.mk hparts
  cases version with
  | none =>
      cases version' with
      | none => rfl
      | some w => cases hversion
  | some v =>
      cases version' with
      | none => cases hversion
      | some w =>
          have hv := hplain _ hp v rfl
          have hw := hplain _ hq w rfl
          suffices v = w by rw [this]
          simp only [Option.map_some, Option.some.injEq] at hversion
          cases scheme with
          | major => exact absurd rfl hscheme
          | underscored => exact hv.underscored_injective hw hversion
          | minimal =>
              by_contra hne
              have hother : OtherVersion packages name v w := ⟨hq, Ne.symm hne⟩
              have hsame : symbolic v (minimalLevel packages name v) =
                  symbolic w (minimalLevel packages name w) := hversion
              have hshortest := shortest_symbolic hplain hp
              rw [hsame] at hshortest
              exact hne (hshortest.eq_of_eq (shortest_symbolic hplain hq) hother hv hw)

/-- How namespaces are assigned.  It fails exactly when two packages have one namespace, with a
collision for each package that has the namespace of one before it, which names the first of these.
Packages whose versions are numbers alone always have distinct namespaces, except where the major
number stands for the version; and the scheme of fewest numbers keeps as few of them as it can. -/
theorem assign_spec
    (packages : List Identity) :
    (∀ scheme, Assigned scheme packages (assign scheme packages) ∧
        ∀ before p c, collision? (ofPackage scheme packages) before p = some c ↔
          ∃ earlier first later, before = earlier ++ first :: later ∧
            ofPackage scheme packages first = ofPackage scheme packages p ∧
            (∀ q ∈ earlier, ofPackage scheme packages q ≠ ofPackage scheme packages p) ∧
            c = ⟨(ofPackage scheme packages p).display, first.display, p.display⟩) ∧
      (packages.Nodup → AllPlain packages →
        (∀ scheme ≠ VersionScheme.major,
          assign scheme packages = .ok (packages.map (ofPackage scheme packages)) ∧
            (packages.map (ofPackage scheme packages)).Nodup) ∧
          ∀ name v, ⟨name, some v⟩ ∈ packages →
            ∃ segment, ofPackage .minimal packages ⟨name, some v⟩ = ⟨name.parts, some segment⟩ ∧
              Shortest packages name v segment) := by
  refine ⟨fun scheme => ⟨assigned_assign scheme packages, fun before p c => collision?_eq_some_iff⟩,
    fun hnodup hplain => ⟨fun scheme hscheme => ?_, fun name v hv => ?_⟩⟩
  · have hdistinct := hnodup.map_on fun p hp q hq => hplain.ofPackage_injOn hscheme p hp q hq
    refine ⟨?_, hdistinct⟩
    have hassigned := assigned_assign scheme packages
    generalize assign scheme packages = result at hassigned
    cases hassigned with
    | distinct => rfl
    | shared h => exact absurd hdistinct h
  · exact ⟨_, rfl, shortest_symbolic hplain hv⟩

/-- Five packages, two of which have versions that share a major or a minor number. -/
theorem assign_spec_packages :
    ∃ packages : List Identity, packages.Nodup ∧ AllPlain packages ∧
      (packages.map (ofPackage .minimal packages)).map (·.version) =
        [some "V1_0", some "V1_2", some "V2_0_0", some "V2_0_1", some "V1"] ∧
      assign .minimal packages = .ok (packages.map (ofPackage .minimal packages)) ∧
      (∀ name v, ⟨name, some v⟩ ∈ packages →
        ∃ segment, ofPackage .minimal packages ⟨name, some v⟩ = ⟨name.parts, some segment⟩ ∧
          Shortest packages name v segment) ∧
      Assigned .major packages (assign .major packages) ∧
      ¬ (packages.map (ofPackage .major packages)).Nodup := by
  have hnodup : ([⟨⟨["bar"]⟩, some ⟨1, 0, 0, [], []⟩⟩, ⟨⟨["bar"]⟩, some ⟨1, 2, 0, [], []⟩⟩,
      ⟨⟨["bar"]⟩, some ⟨2, 0, 0, [], []⟩⟩, ⟨⟨["bar"]⟩, some ⟨2, 0, 1, [], []⟩⟩,
      ⟨⟨["other"]⟩, some ⟨1, 0, 0, [], []⟩⟩] : List Identity).Nodup := by
    decide
  have hplain : AllPlain [⟨⟨["bar"]⟩, some ⟨1, 0, 0, [], []⟩⟩,
      ⟨⟨["bar"]⟩, some ⟨1, 2, 0, [], []⟩⟩, ⟨⟨["bar"]⟩, some ⟨2, 0, 0, [], []⟩⟩,
      ⟨⟨["bar"]⟩, some ⟨2, 0, 1, [], []⟩⟩, ⟨⟨["other"]⟩, some ⟨1, 0, 0, [], []⟩⟩] := by
    intro p hp v hv
    fin_cases hp <;> cases hv <;> exact ⟨rfl, rfl⟩
  obtain ⟨hscheme, hspec⟩ := assign_spec _
  obtain ⟨hok, hshortest⟩ := hspec hnodup hplain
  exact ⟨_, hnodup, hplain, by decide +kernel, (hok .minimal (by decide)).1, hshortest,
    (hscheme .major).1, by decide +kernel⟩

end Assign

end Namespace
end Schemata
