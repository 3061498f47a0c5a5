import Schemata.Proofs.Naming.Namespace
import Schemata.Proofs.Target.Site
import Schemata.Target.SwiftName

/-!
# Which types have one identifier

The names in one scope are distinct, and their identifiers are distinct
exactly when no two of the names have the same visible words.

In Swift a name begins with the package, and a step is added for each
declaration around the type: an underscore and an identifier inside a service,
else a dot and an identifier.  Identifiers have no dots and end where a letter
or digit ends, up to the mark of a reserved word, so the steps can be read back
from left to right.  What cannot be told is where the package ends, since
packages are written with underscores too.

**Results.**
* `resolve_idents`: when the identifiers of siblings are distinct, when the
  names of all types are distinct in Swift, and a rule for names that is enough
  for this.
* `exists_shared_ident`: two types of one package with one identifier.
-/

namespace Schemata
namespace Target
namespace Swift

open Naming (Casing)

section Steps

/-- The name of a type. -/
def siteName
    (s : Schema) :
    Site → String
  | .decl id => qualified s id
  | .case id c => caseType s id c

/-- What a type adds to the name of what is around it. -/
structure Step where
  /-- What is around it cannot hold types, so that an underscore stands for the dot. -/
  flat : Bool
  name : String

namespace Step

/-- The characters of a step. -/
def text
    (t : Step) :
    List Char :=
  (if t.flat then '_' else '.') :: (typeIdent t.name).toList

/-- What can be read of a step. -/
def key
    (t : Step) :
    Bool × String :=
  (t.flat, typeIdent t.name)

end Step

/-- The steps of a chain of indices, innermost first. -/
def chainSteps
    (p : Package) :
    List Nat → List Step
  | [] => []
  | [root] => [⟨true, (p.decl root).name⟩]
  | index :: parent :: rest =>
      chainSteps p (parent :: rest) ++ [⟨isService p parent, (p.decl index).name⟩]

/-- The steps from a package to a type. -/
def steps
    (s : Schema) :
    Site → List Step
  | .decl id => chainSteps (s.package id.package) ((s.package id.package).parents id.index)
  | .case id c =>
      chainSteps (s.package id.package) ((s.package id.package).parents id.index)
        ++ [⟨false, c.name⟩]

theorem toList_chainName
    (p : Package)
    (chain : List Nat) :
    (chainName p chain).toList =
      (packageText p).toList ++ (chainSteps p chain).flatMap Step.text := by
  fun_induction chainName p chain with
  | case1 =>
      simp [chainSteps]
  | case2 root =>
      simp [chainSteps, Step.text, String.toList_append]
      rfl
  | case3 index parent rest ih =>
      have hjoint : (joint p parent).toList = [if isService p parent then '_' else '.'] := by
        unfold joint
        split <;> rfl
      simp [chainSteps, Step.text, String.toList_append, ih, hjoint]

/-- A name is that of the package and the steps. -/
theorem toList_siteName
    (s : Schema)
    (x : Site) :
    (siteName s x).toList =
      (packageText (s.package x.place.package)).toList ++ (steps s x).flatMap Step.text := by
  cases x with
  | decl id =>
      exact toList_chainName _ _
  | case id c =>
      have hcase : (caseType s id c).toList =
          (qualified s id).toList ++ '.' :: (typeIdent c.name).toList := by
        simp only [caseType, String.toList_append, List.append_assoc]
        rfl
      simp [siteName, hcase, qualified, toList_chainName, steps, Step.text, Site.place]

/-- An identifier ends where its letters and digits end, up to its mark. -/
theorem takeWhile_typeIdent
    (name : String)
    {rest : List Char}
    (hrest : ∀ c ∈ rest.head?, c.isAlphanum = false) :
    ((typeIdent name).toList ++ rest).takeWhile Char.isAlphanum =
      (Casing.upperCamel.apply name).toList := by
  have hall : ∀ c ∈ (Casing.upperCamel.apply name).toList, c.isAlphanum = true :=
    fun c hc => Naming.isAlphanum_of_mem_upperCamel hc
  have hstop : rest.takeWhile Char.isAlphanum = [] := by
    cases rest with
    | nil => rfl
    | cons c cs => simp [hrest c rfl]
  unfold typeIdent Emit.typeIdent Naming.Language.spell
  split
  · have hmark : ∀ text : String,
        (Naming.Language.swift.mark.apply text).toList = text.toList ++ ['_'] := by
      intro text
      simp [Naming.Language.mark, Naming.Mark.apply, String.toList_append]
    rw [hmark, List.append_assoc, List.takeWhile_append_of_pos hall]
    simp
  · rw [List.takeWhile_append_of_pos hall, hstop, List.append_nil]

theorem head?_flatMap_text
    (ts : List Step) :
    ∀ c ∈ (ts.flatMap Step.text).head?, c.isAlphanum = false := by
  cases ts with
  | nil =>
      simp
  | cons t ts =>
      intro c hc
      obtain rfl := Option.some.inj hc
      cases t.flat <;> rfl

/-- Steps are read back from left to right. -/
theorem map_key_of_flatMap_text
    {ts us : List Step}
    (h : ts.flatMap Step.text = us.flatMap Step.text) :
    ts.map Step.key = us.map Step.key := by
  induction ts generalizing us with
  | nil =>
      cases us with
      | nil => rfl
      | cons u us => cases h
  | cons t ts ih =>
      cases us with
      | nil =>
          cases h
      | cons u us =>
          rw [List.flatMap_cons, List.flatMap_cons, Step.text, Step.text, List.cons_append,
            List.cons_append, List.cons.injEq] at h
          obtain ⟨hjoint, hrest⟩ := h
          have hflat : t.flat = u.flat := by
            cases ht : t.flat <;> cases hu : u.flat <;> simp_all
          have hcased : (Casing.upperCamel.apply t.name).toList =
              (Casing.upperCamel.apply u.name).toList := by
            rw [← takeWhile_typeIdent t.name (head?_flatMap_text ts), hrest,
              takeWhile_typeIdent u.name (head?_flatMap_text us)]
          have hident : typeIdent t.name = typeIdent u.name := by
            rw [typeIdent, typeIdent, Emit.typeIdent, Emit.typeIdent, String.toList_inj.mp hcased]
          rw [hident] at hrest
          rw [List.map_cons, List.map_cons, ih (List.append_cancel_left hrest), Step.key, Step.key,
            hflat, hident]

/-- A declaration with cases is no service. -/
theorem isService_eq_false_of_case
    {s : Schema}
    {id : DeclId}
    {c : SubType}
    (hc : c ∈ s.cases id) :
    isService (s.package id.package) id.index = false := by
  obtain ⟨body, hbody, -⟩ := exists_body_of_case hc
  rw [isService, show (s.package id.package).decl id.index = s.decl id from rfl, hbody]

end Steps

section Linked

variable {s : Schema}
variable (hs : s.Linked)

include hs

theorem steps_outermost
    {package : Nat}
    (hpackage : package < s.packages.length)
    {x : Site}
    (hx : x ∈ outermost s package) :
    steps s x = [⟨true, x.name s⟩] := by
  obtain ⟨id, hid, rfl⟩ := List.mem_map.mp hx
  obtain ⟨index, hindex, rfl⟩ := List.mem_map.mp hid
  have hforest := hs.forest _ _ (s.getElem?_package hpackage)
  rw [steps, hforest.parents_of_root hindex]
  rfl

theorem steps_inner
    {outer : DeclId}
    (houter : outer ∈ s.ids)
    {x : Site}
    (hx : x ∈ inner s outer) :
    steps s x =
      steps s (.decl outer) ++ [⟨isService (s.package outer.package) outer.index, x.name s⟩] := by
  cases x with
  | decl id =>
      obtain ⟨index, hindex, rfl⟩ := List.mem_map.mp ((mem_inner_decl _ _).mp hx)
      obtain ⟨-, hlt⟩ := (s.mem_ids_iff outer).mp houter
      have hforest := hs.forest_of_mem houter
      obtain ⟨above, habove⟩ := Package.exists_parents_eq_cons _ hlt
      simp only [steps, hforest.parents_of_child hlt hindex, habove, chainSteps]
      rfl
  | case id c =>
      obtain ⟨rfl, hc⟩ := (mem_inner_case _ _ _).mp hx
      rw [isService_eq_false_of_case hc]
      rfl

theorem steps_ne_nil
    {x : Site}
    (hx : x ∈ sites s) :
    steps s x ≠ [] := by
  rcases Site.outermost_or_inner hs hx with hroot | ⟨outer, houter, -, hinner⟩
  · rw [steps_outermost hs ((s.mem_ids_iff _).mp (place_mem_ids hx)).1 hroot]
    simp
  · rw [steps_inner hs houter hinner]
    simp

end Linked

section Distinct

variable {s : Schema}
variable (hs : s.Linked)
variable (hdistinct : ∀ scope ∈ scopes s, (scope.map (Site.ident .swift s)).Nodup)

include hdistinct

theorem eq_of_ident_outermost
    {package : Nat}
    (hpackage : package < s.packages.length)
    {x y : Site}
    (hx : x ∈ outermost s package)
    (hy : y ∈ outermost s package)
    (hident : typeIdent (x.name s) = typeIdent (y.name s)) :
    x = y := by
  have hscope : outermost s package ∈ scopes s :=
    List.mem_append_left _ (List.mem_map_of_mem (List.mem_range.mpr hpackage))
  exact List.inj_on_of_nodup_map (hdistinct _ hscope) hx hy hident

theorem eq_of_ident_inner
    {outer : DeclId}
    (houter : outer ∈ s.ids)
    {x y : Site}
    (hx : x ∈ inner s outer)
    (hy : y ∈ inner s outer)
    (hident : typeIdent (x.name s) = typeIdent (y.name s)) :
    x = y := by
  have hscope : inner s outer ∈ scopes s := List.mem_append_right _ (List.mem_map_of_mem houter)
  exact List.inj_on_of_nodup_map (hdistinct _ hscope) hx hy hident

include hs

/-- Where siblings have distinct identifiers, the steps lead to one type of a package. -/
theorem eq_of_map_key
    {x y : Site}
    (hx : x ∈ sites s)
    (hy : y ∈ sites s)
    (hpackage : x.place.package = y.place.package)
    (hkey : (steps s x).map Step.key = (steps s y).map Step.key) :
    x = y := by
  induction hn : (steps s x).length using Nat.strongRecOn generalizing x y with
  | ind n ih =>
      have hlt := ((s.mem_ids_iff _).mp (place_mem_ids hx)).1
      -- an outermost type has one step, and any other type has more
      have hmore : ∀ {outer}, outer ∈ s.ids → (steps s (.decl outer)).map Step.key ≠ [] :=
        fun houter => by simpa using steps_ne_nil hs ((mem_sites_decl _).mpr houter)
      rcases Site.outermost_or_inner hs hx with hroot | ⟨outer, houter, hpx, hinner⟩
      · rw [steps_outermost hs hlt hroot] at hkey
        rcases Site.outermost_or_inner hs hy with hroot' | ⟨outer', houter', hpy, hinner'⟩
        · rw [← hpackage] at hroot'
          rw [steps_outermost hs hlt hroot'] at hkey
          exact eq_of_ident_outermost hdistinct hlt hroot hroot' (by simpa [Step.key] using hkey)
        · rw [steps_inner hs houter' hinner', List.map_append] at hkey
          exact absurd (List.append_singleton_inj.mp hkey.symm).1 (hmore houter')
      · rw [steps_inner hs houter hinner, List.map_append] at hkey
        rcases Site.outermost_or_inner hs hy with hroot' | ⟨outer', houter', hpy, hinner'⟩
        · rw [← hpackage] at hroot'
          rw [steps_outermost hs hlt hroot'] at hkey
          exact absurd (List.append_singleton_inj.mp hkey).1 (hmore houter)
        · rw [steps_inner hs houter' hinner', List.map_append] at hkey
          obtain ⟨hkeys, hlast⟩ := List.append_singleton_inj.mp hkey
          have hshorter : (steps s (.decl outer)).length < n := by
            rw [← hn, steps_inner hs houter hinner]
            simp
          have hsame := ih _ hshorter ((mem_sites_decl outer).mpr houter)
            ((mem_sites_decl outer').mpr houter') ((hpx.trans hpackage).trans hpy.symm) hkeys rfl
          obtain rfl := Site.decl.inj hsame
          exact eq_of_ident_inner hdistinct houter hinner hinner'
            (by simpa [Step.key] using congrArg Prod.snd hlast)

end Distinct

section FileLevel

/-- All declarations around the declaration are services, so that its type stands at the level of
the file. -/
def AtFileLevel
    (s : Schema)
    (id : DeclId) : Prop :=
  ∀ outer ∈ ((s.package id.package).parents id.index).tail,
    isService (s.package id.package) outer = true

theorem forall_flat_chainSteps
    (p : Package)
    (chain : List Nat) :
    (∀ t ∈ chainSteps p chain, t.flat = true) ↔ ∀ outer ∈ chain.tail, isService p outer = true := by
  fun_induction chainSteps p chain with
  | case1 => simp
  | case2 root => simp
  | case3 index parent rest ih =>
      rw [List.forall_mem_append, List.forall_mem_singleton, ih, List.tail_cons, List.tail_cons,
        List.forall_mem_cons, and_comm]

theorem atFileLevel_iff
    (s : Schema)
    (id : DeclId) :
    AtFileLevel s id ↔ ∀ t ∈ steps s (.decl id), t.flat = true :=
  (forall_flat_chainSteps _ _).symm

/-- The first dot of a name is that of the first step that has one. -/
theorem takeWhile_flatMap_text
    (ts : List Step) :
    (ts.flatMap Step.text).takeWhile (· != '.') =
      (ts.takeWhile (·.flat)).flatMap Step.text := by
  induction ts with
  | nil =>
      rfl
  | cons t ts ih =>
      have hident : ∀ c ∈ (typeIdent t.name).toList, (c != '.') = true := by
        intro c hc
        have hdot := (Emit.isIdentText_typeIdent .swift t.name).dot_not_mem
        simpa using fun heq : c = '.' => hdot (heq ▸ hc)
      cases hflat : t.flat with
      | false => simp [Step.text, hflat]
      | true =>
          simp [Step.text, hflat, List.takeWhile_append_of_pos hident, ih]

variable {s : Schema}
variable (hs : s.Linked)

include hs

/-- What stands before the first dot of a name is the name of a declaration at file level. -/
theorem exists_atFileLevel
    {x : Site}
    (hx : x ∈ sites s) :
    ∃ top ∈ s.ids, top.package = x.place.package ∧ AtFileLevel s top ∧
      (steps s x).takeWhile (·.flat) = steps s (.decl top) := by
  induction hn : (steps s x).length using Nat.strongRecOn generalizing x with
  | ind n ih =>
      rcases Site.outermost_or_inner hs hx with hroot | ⟨outer, houter, hpackage, hinner⟩
      · have hsteps := steps_outermost hs ((s.mem_ids_iff _).mp (place_mem_ids hx)).1 hroot
        obtain ⟨id, hid, rfl⟩ := List.mem_map.mp hroot
        refine ⟨id, place_mem_ids hx, rfl, (atFileLevel_iff s id).mpr ?_, ?_⟩ <;> simp [hsteps]
      · have hsteps := steps_inner hs houter hinner
        by_cases hall : ∀ t ∈ steps s (.decl outer), t.flat = true
        · rw [hsteps, List.takeWhile_append_of_pos hall]
          cases hservice : isService (s.package outer.package) outer.index with
          | true =>
              cases x with
              | decl id =>
                  refine ⟨id, place_mem_ids hx, rfl, (atFileLevel_iff s id).mpr ?_, ?_⟩
                  · simpa [hsteps, hservice, or_imp, forall_and] using hall
                  · simp [hsteps, hservice]
              | case id c =>
                  obtain ⟨rfl, hc⟩ := (mem_inner_case _ _ _).mp hinner
                  cases hservice.symm.trans (isService_eq_false_of_case hc)
          | false =>
              exact ⟨outer, houter, hpackage, (atFileLevel_iff s outer).mpr hall, by simp⟩
        · have hshorter : (steps s (.decl outer)).length < n := by
            rw [← hn, hsteps]
            simp
          obtain ⟨top, htop, hsame, hlevel, htake⟩ :=
            ih _ hshorter ((mem_sites_decl outer).mpr houter) rfl
          refine ⟨top, htop, hsame.trans hpackage, hlevel, ?_⟩
          rw [hsteps, List.takeWhile_append, if_neg, htake]
          intro hlength
          have heq := (List.takeWhile_sublist _).eq_of_length hlength
          exact hall (List.takeWhile_eq_self_iff.mp heq)

variable (hfit : s.NamespacesFit)

include hfit

/-- Types of different packages with one name stand inside declarations of one name. -/
theorem exists_qualified_eq
    {x y : Site}
    (hx : x ∈ sites s)
    (hy : y ∈ sites s)
    (hname : siteName s x = siteName s y) :
    ∃ a ∈ s.ids, ∃ b ∈ s.ids, AtFileLevel s a ∧ AtFileLevel s b ∧
      a.package = x.place.package ∧ b.package = y.place.package ∧
      qualified s a = qualified s b := by
  obtain ⟨a, ha, hpa, hla, hsa⟩ := exists_atFileLevel hs hx
  obtain ⟨b, hb, hpb, hlb, hsb⟩ := exists_atFileLevel hs hy
  refine ⟨a, ha, b, hb, hla, hlb, hpa, hpb, ?_⟩
  have hbefore : ∀ {z : Site} {top : DeclId}, top ∈ s.ids → top.package = z.place.package →
      (steps s z).takeWhile (·.flat) = steps s (.decl top) →
      (qualified s top).toList = (siteName s z).toList.takeWhile (· != '.') := by
    intro z top htop hpackage hsteps
    have hwf := hfit.wellFormed_package ((s.mem_ids_iff top).mp htop).1
    have hpackageText : ∀ c ∈ (packageText (s.package z.place.package)).toList,
        (c != '.') = true := by
      intro c hc
      have hdot := (Naming.isIdentText_intercalate
        (Emit.isIdentText_namespaceSegments_upperCamel hwf)).dot_not_mem
      rw [hpackage] at hdot
      simpa using fun heq : c = '.' => hdot (heq ▸ hc)
    rw [toList_siteName, List.takeWhile_append_of_pos hpackageText, takeWhile_flatMap_text, hsteps,
      ← hpackage]
    exact toList_siteName s (.decl top)
  rw [← String.toList_inj, hbefore ha hpa hsa, hbefore hb hpb hsb, hname]

end FileLevel

section Iff

variable {s : Schema}
variable (hs : s.Linked)

include hs

/-- Siblings with one identifier have one name. -/
theorem siteName_eq_of_mem_scopes
    {scope : List Site}
    (hscope : scope ∈ scopes s)
    {x y : Site}
    (hx : x ∈ scope)
    (hy : y ∈ scope)
    (hident : x.ident .swift s = y.ident .swift s) :
    x ∈ sites s ∧ y ∈ sites s ∧ siteName s x = siteName s y := by
  have htext : ∀ flat, Step.text ⟨flat, x.name s⟩ = Step.text ⟨flat, y.name s⟩ := fun flat =>
    congrArg (fun ident : String => (if flat then '_' else '.') :: ident.toList) hident
  rcases List.mem_append.mp hscope with hroots | hinner
  · obtain ⟨package, hpackage, rfl⟩ := List.mem_map.mp hroots
    have hlt := List.mem_range.mp hpackage
    obtain ⟨hsx, hpx⟩ := mem_sites_of_mem_outermost hs hlt hx
    obtain ⟨hsy, hpy⟩ := mem_sites_of_mem_outermost hs hlt hy
    refine ⟨hsx, hsy, ?_⟩
    rw [← String.toList_inj, toList_siteName, toList_siteName, steps_outermost hs hlt hx,
      steps_outermost hs hlt hy, hpx, hpy, List.flatMap_singleton, List.flatMap_singleton, htext]
  · obtain ⟨outer, houter, rfl⟩ := List.mem_map.mp hinner
    obtain ⟨hsx, hpx⟩ := mem_sites_of_mem_inner hs houter hx
    obtain ⟨hsy, hpy⟩ := mem_sites_of_mem_inner hs houter hy
    refine ⟨hsx, hsy, ?_⟩
    rw [← String.toList_inj, toList_siteName, toList_siteName, steps_inner hs houter hx,
      steps_inner hs houter hy, hpx, hpy, List.flatMap_append, List.flatMap_append,
      List.flatMap_singleton, List.flatMap_singleton, htext]

variable (hwf : s.WellFormed)
variable (hfit : s.NamespacesFit)

include hwf hfit

/-- The names of all types are distinct exactly when siblings have distinct identifiers and the
names at file level tell packages apart. -/
theorem nodup_siteName_iff :
    ((sites s).map (siteName s)).Nodup ↔
      (∀ scope ∈ scopes s, (scope.map (Site.ident .swift s)).Nodup) ∧
        ∀ a ∈ s.ids, ∀ b ∈ s.ids, AtFileLevel s a → AtFileLevel s b →
          a.package ≠ b.package → qualified s a ≠ qualified s b := by
  rw [List.nodup_map_iff_inj_on (nodup_sites hs hwf)]
  constructor
  · intro hinjective
    refine ⟨fun scope hscope => ?_, fun a ha b hb _ _ hne hname => hne ?_⟩
    · refine List.Nodup.map_on (fun x hx y hy hident => ?_)
        (nodup_name_of_mem_scopes hs hwf hscope).of_map
      obtain ⟨hsx, hsy, hname⟩ := siteName_eq_of_mem_scopes hs hscope hx hy hident
      exact hinjective x hsx y hsy hname
    · have hsame := hinjective (.decl a) ((mem_sites_decl a).mpr ha) (.decl b)
        ((mem_sites_decl b).mpr hb) hname
      rw [Site.decl.inj hsame]
  · rintro ⟨hdistinct, hpackages⟩ x hx y hy hname
    have hpackage : x.place.package = y.place.package := by
      obtain ⟨a, ha, b, hb, hla, hlb, hpa, hpb, hqualified⟩ :=
        exists_qualified_eq hs hfit hx hy hname
      by_contra hne
      exact hpackages a ha b hb hla hlb (hpa ▸ hpb ▸ hne) hqualified
    refine eq_of_map_key hs hdistinct hx hy hpackage (map_key_of_flatMap_text ?_)
    have htext := String.toList_inj.mpr hname
    rw [toList_siteName, toList_siteName, hpackage] at htext
    exact List.append_cancel_left htext

end Iff

section Simple

/-- Pieces that are joined are cut into their own pieces. -/
theorem splitOn_intercalate_eq_flatMap
    {pieces : List (List Char)}
    (hne : pieces ≠ []) :
    (['_'].intercalate pieces).splitOn '_' = pieces.flatMap (·.splitOn '_') := by
  induction pieces with
  | nil =>
      exact absurd rfl hne
  | cons first rest ih =>
      cases rest with
      | nil =>
          simp
      | cons second rest =>
          rw [List.intercalate_cons_cons, List.append_assoc, List.singleton_append,
            List.splitOn_append_cons_self, ih (List.cons_ne_nil _ _)]
          rfl

theorem splitOn_injective
    {as bs : List Char}
    (h : as.splitOn '_' = bs.splitOn '_') :
    as = bs := by
  have hjoined := congrArg ['_'].intercalate h
  rwa [List.intercalate_splitOn, List.intercalate_splitOn] at hjoined

/-- The pieces of the text of a package: its parts, then those of its version. -/
theorem splitOn_packageText
    {p : Package}
    (hwf : p.ns.WellFormed) :
    (packageText p).toList.splitOn '_' =
      (p.ns.parts.map fun part => (Casing.upperCamel.apply part).toList) ++
        p.ns.version.toList.flatMap (·.toList.splitOn '_') := by
  have hparts : ∀ parts : List String,
      (parts.map fun part => (Casing.upperCamel.apply part).toList).flatMap (·.splitOn '_') =
        parts.map fun part => (Casing.upperCamel.apply part).toList := by
    intro parts
    induction parts with
    | nil => rfl
    | cons part parts ih =>
        rw [List.map_cons, List.flatMap_cons, ih,
          List.splitOn_eq_singleton (Naming.underscore_not_mem_upperCamel part)]
        rfl
  have hne : (segments p).map String.toList ≠ [] := by
    simp [segments, Emit.namespaceSegments, hwf.ne_nil]
  have hjoint : "_".toList = ['_'] := rfl
  rw [packageText, String.toList_intercalate, hjoint, splitOn_intercalate_eq_flatMap hne, segments,
    Emit.namespaceSegments, List.map_append, List.flatMap_append, List.map_map]
  congr 1
  · exact hparts p.ns.parts
  · rw [List.flatMap_map]

/-- An empty piece shows where the version of a simple namespace begins. -/
theorem splitOn_version
    {ns : Namespace}
    (hsimple : ns.IsSimple) :
    ∀ piece ∈ (ns.version.toList.flatMap (·.toList.splitOn '_')).head?, piece = [] := by
  cases hversion : ns.version with
  | none =>
      simp
  | some v =>
      obtain ⟨cs, hcs⟩ := hsimple.version v hversion
      have hsplit : v.toList.splitOn '_' = [] :: cs.splitOn '_' := by
        rw [hcs]
        exact List.splitOn_append_cons_self [] cs
      intro piece hpiece
      rw [Option.toList_some, List.flatMap_singleton, hsplit] at hpiece
      exact (Option.some.inj hpiece).symm

/-- Pieces that are not empty are kept apart from what begins with an empty one. -/
theorem append_eq_append_of_nonempty
    {as bs xs ys : List (List Char)}
    (has : ∀ a ∈ as, a ≠ [])
    (hbs : ∀ b ∈ bs, b ≠ [])
    (hxs : ∀ x ∈ xs.head?, x = [])
    (hys : ∀ y ∈ ys.head?, y = [])
    (h : as ++ xs = bs ++ ys) :
    as = bs ∧ xs = ys := by
  induction as generalizing bs with
  | nil =>
      cases bs with
      | nil => exact ⟨rfl, h⟩
      | cons b bs =>
          rw [List.nil_append] at h
          exact absurd (hxs b (h ▸ rfl)) (hbs b List.mem_cons_self)
  | cons a as ih =>
      cases bs with
      | nil =>
          rw [List.nil_append] at h
          exact absurd (hys a (h ▸ rfl)) (has a List.mem_cons_self)
      | cons b bs =>
          obtain ⟨rfl, hrest⟩ := List.cons.inj h
          obtain ⟨rfl, htail⟩ := ih (fun c hc => has c (List.mem_cons_of_mem a hc))
            (fun c hc => hbs c (List.mem_cons_of_mem a hc)) hrest
          exact ⟨rfl, htail⟩

/-- Versions are told apart by their pieces. -/
theorem eq_of_splitOn_version
    {v w : Option String}
    (h : v.toList.flatMap (·.toList.splitOn '_') = w.toList.flatMap (·.toList.splitOn '_')) :
    v = w := by
  cases v with
  | none =>
      cases w with
      | none => rfl
      | some w =>
          rw [Option.toList_some, List.flatMap_singleton] at h
          exact absurd h.symm (List.splitOn_ne_nil '_' _)
  | some v =>
      cases w with
      | none =>
          rw [Option.toList_some, List.flatMap_singleton] at h
          exact absurd h (List.splitOn_ne_nil '_' _)
      | some w =>
          rw [Option.toList_some, Option.toList_some, List.flatMap_singleton,
            List.flatMap_singleton] at h
          rw [String.toList_inj.mp (splitOn_injective h)]

/-- Simple namespaces have distinct texts. -/
theorem eq_of_packageText
    {p q : Package}
    (hwp : p.ns.WellFormed)
    (hwq : q.ns.WellFormed)
    (hp : p.ns.IsSimple)
    (hq : q.ns.IsSimple)
    (h : packageText p = packageText q) :
    p.ns = q.ns := by
  have hpieces := congrArg (fun text : String => text.toList.splitOn '_') h
  simp only [splitOn_packageText hwp, splitOn_packageText hwq] at hpieces
  have hparts : ∀ {ns : Namespace}, ns.WellFormed →
      ∀ piece ∈ ns.parts.map fun part => (Casing.upperCamel.apply part).toList, piece ≠ [] := by
    intro ns hwf piece hpiece
    obtain ⟨part, hpart, rfl⟩ := List.mem_map.mp hpiece
    exact Naming.upperCamel_ne_nil_of_isPart (hwf.parts part hpart)
  obtain ⟨hspelled, hversions⟩ := append_eq_append_of_nonempty (hparts hwp) (hparts hwq)
    (splitOn_version hp) (splitOn_version hq) hpieces
  refine hp.eq_of_alike hwp hwq hq (Or.inl ⟨?_, ?_⟩)
  · rw [← Naming.map_upperCamel_eq_iff]
    have hinjective : Function.Injective String.toList := fun _ _ => String.toList_inj.mp
    refine hinjective.list_map ?_
    rw [List.map_map, List.map_map]
    exact hspelled
  · exact eq_of_splitOn_version hversions

/-- The pieces of the identifier of a plain name: the name, and an empty one if it is marked. -/
theorem splitOn_typeIdent
    {name : String}
    (hplain : Naming.isPlain name = true) :
    name.toList ≠ [] ∧ ((typeIdent name).toList.splitOn '_' = [name.toList] ∨
      (typeIdent name).toList.splitOn '_' = [name.toList, []]) := by
  have hname := Naming.upperCamel_of_isPlain hplain
  have hmem := Naming.underscore_not_mem_upperCamel name
  rw [hname] at hmem
  refine ⟨fun hnil => ?_, ?_⟩
  · simp [Naming.isPlain, hnil] at hplain
  · unfold typeIdent Emit.typeIdent Naming.Language.spell
    rw [hname]
    split
    · right
      have hmark : (Naming.Language.swift.mark.apply name).toList = name.toList ++ '_' :: [] := by
        simp [Naming.Language.mark, Naming.Mark.apply, String.toList_append]
      rw [hmark, List.splitOn_append_cons_self, List.splitOn_eq_singleton hmem]
      rfl
    · left
      exact List.splitOn_eq_singleton hmem

/-- Where names are plain, the text before the last identifier can be told. -/
theorem eq_of_append_typeIdent
    {before after : List Char}
    {a b : String}
    (ha : Naming.isPlain a = true)
    (hb : Naming.isPlain b = true)
    (h : before ++ '_' :: (typeIdent a).toList = after ++ '_' :: (typeIdent b).toList) :
    before = after := by
  have hpieces := congrArg (List.splitOn '_') h
  rw [List.splitOn_append_cons_self, List.splitOn_append_cons_self] at hpieces
  obtain ⟨hane, ha⟩ := splitOn_typeIdent ha
  obtain ⟨hbne, hb⟩ := splitOn_typeIdent hb
  refine splitOn_injective ?_
  rcases ha with ha | ha <;> rcases hb with hb | hb <;> rw [ha, hb] at hpieces
  · exact (List.append_singleton_inj.mp hpieces).1
  · have hlast := congrArg List.getLast? hpieces
    exact absurd (by simpa using hlast) hane
  · have hlast := congrArg List.getLast? hpieces
    exact absurd (by simpa using hlast.symm) hbne
  · exact (List.append_inj' hpieces rfl).1

variable {s : Schema}
variable (hs : s.Linked)

include hs

/-- Where services hold no declarations, only outermost declarations stand at file level. -/
theorem mem_outermost_of_atFileLevel
    (hempty : ∀ id ∈ s.ids, isService (s.package id.package) id.index = true →
      s.childrenOf id = [])
    {id : DeclId}
    (hid : id ∈ s.ids)
    (hlevel : AtFileLevel s id) :
    .decl id ∈ outermost s id.package := by
  rcases Site.outermost_or_inner hs ((mem_sites_decl id).mpr hid) with
    hroot | ⟨outer, houter, -, hinner⟩
  · exact hroot
  · have hflat := (atFileLevel_iff s id).mp hlevel
    rw [steps_inner hs houter hinner, List.forall_mem_append, List.forall_mem_singleton] at hflat
    have hchild := (mem_inner_decl outer id).mp hinner
    rw [hempty outer houter hflat.2] at hchild
    cases hchild

/-- Simple packages with plain names are told apart at file level. -/
theorem qualified_ne_of_simple
    (hfit : s.NamespacesFit)
    (hsimple : ∀ p ∈ s.packages, p.ns.IsSimple)
    (hplain : ∀ x ∈ sites s, Naming.isPlain (x.name s) = true)
    (hempty : ∀ id ∈ s.ids, isService (s.package id.package) id.index = true →
      s.childrenOf id = [])
    {a b : DeclId}
    (ha : a ∈ s.ids)
    (hb : b ∈ s.ids)
    (hla : AtFileLevel s a)
    (hlb : AtFileLevel s b)
    (hne : a.package ≠ b.package) :
    qualified s a ≠ qualified s b := by
  have hlt := ((s.mem_ids_iff a).mp ha).1
  have hlt' := ((s.mem_ids_iff b).mp hb).1
  have hname : ∀ {id}, id ∈ s.ids → AtFileLevel s id → (qualified s id).toList =
      (packageText (s.package id.package)).toList ++ '_' :: (typeIdent (s.decl id).name).toList := by
    intro id hid hlevel
    have hsteps := steps_outermost hs ((s.mem_ids_iff id).mp hid).1
      (mem_outermost_of_atFileLevel hs hempty hid hlevel)
    have htext := toList_siteName s (.decl id)
    rw [hsteps, List.flatMap_singleton] at htext
    exact htext
  intro heq
  have htext := String.toList_inj.mpr heq
  rw [hname ha hla, hname hb hlb] at htext
  have hpackages := eq_of_append_typeIdent (hplain _ ((mem_sites_decl a).mpr ha))
    (hplain _ ((mem_sites_decl b).mpr hb)) htext
  refine hne (hfit.eq_of_ns hlt hlt' ?_)
  exact eq_of_packageText (hfit.wellFormed_package hlt) (hfit.wellFormed_package hlt')
    (hsimple _ (s.package_mem hlt)) (hsimple _ (s.package_mem hlt')) (String.toList_inj.mp hpackages)

end Simple

end Swift

section Siblings

variable {s : Schema}

/-- Identifiers in a scope are distinct where no two names have the same visible words. -/
theorem nodup_ident_iff
    (language : Naming.Language)
    (scope : List Site) :
    (scope.map (Site.ident language s)).Nodup ↔
      scope.Pairwise fun x y => ¬Naming.SameWords (x.name s) (y.name s) := by
  rw [List.Nodup, List.pairwise_map]
  simp only [Site.ident, ne_eq, Emit.typeIdent_eq_iff]

theorem pairwise_of_isPlain
    {scope : List Site}
    (hnames : (scope.map (Site.name s)).Nodup)
    (hplain : ∀ x ∈ scope, Naming.isPlain (x.name s) = true) :
    scope.Pairwise fun x y => ¬Naming.SameWords (x.name s) (y.name s) := by
  refine (List.pairwise_map.mp hnames).imp_of_mem fun hx hy hne hsame => hne ?_
  exact hsame.eq_of_isPlain (hplain _ hx) (hplain _ hy)

end Siblings

end Target

/-- When types of files that resolve have distinct identifiers.  The names of siblings are
distinct, and their identifiers are distinct in a language exactly when no two of the names have
the same visible words.  In Swift the names of all types are distinct exactly when siblings have
distinct identifiers and no two packages have a type of one name at file level.  Plain names are
enough for the one; for the other, parts without underscores, versions in full and services
without declarations inside are enough as well. -/
theorem resolve_idents
    {options : ResolveOptions}
    {files : List SourceFile}
    {r : Resolved}
    (h : resolve options files = .ok r)
    (hnames : ∀ f ∈ files, f.identity.name.IsValid) :
    (∀ scope ∈ Target.scopes r.schema, (scope.map (Target.Site.name r.schema)).Nodup ∧
        ∀ language, (scope.map (Target.Site.ident language r.schema)).Nodup ↔
          scope.Pairwise fun x y => ¬Naming.SameWords (x.name r.schema) (y.name r.schema)) ∧
      (((Target.sites r.schema).map (Target.Swift.siteName r.schema)).Nodup ↔
        (∀ scope ∈ Target.scopes r.schema,
            (scope.map (Target.Site.ident .swift r.schema)).Nodup) ∧
          ∀ a ∈ r.schema.ids, ∀ b ∈ r.schema.ids,
            Target.Swift.AtFileLevel r.schema a → Target.Swift.AtFileLevel r.schema b →
              a.package ≠ b.package →
                Target.Swift.qualified r.schema a ≠ Target.Swift.qualified r.schema b) ∧
      ((∀ x ∈ Target.sites r.schema, Naming.isPlain (x.name r.schema) = true) →
        (∀ scope ∈ Target.scopes r.schema, ∀ language,
            (scope.map (Target.Site.ident language r.schema)).Nodup) ∧
          (options.scheme = .underscored →
            (∀ f ∈ files, ∀ part ∈ f.identity.name.parts, '_' ∉ part.toList) →
            (∀ id ∈ r.schema.ids,
              Target.Swift.isService (r.schema.package id.package) id.index = true →
                r.schema.childrenOf id = []) →
            ((Target.sites r.schema).map (Target.Swift.siteName r.schema)).Nodup)) := by
  have hresolved := Resolve.resolvedFrom_of_resolve h
  have hs : r.schema.Linked := linked_of_resolvedFrom hresolved
  have hwf : r.schema.WellFormed := hresolved.wellFormed
  have hfit := Resolve.namespacesFit_of_resolve h hnames
  have hscope : ∀ scope ∈ Target.scopes r.schema, (scope.map (Target.Site.name r.schema)).Nodup :=
    fun scope hscope => Target.nodup_name_of_mem_scopes hs hwf hscope
  have hiff := Target.Swift.nodup_siteName_iff hs hwf hfit
  refine ⟨fun scope hmem => ⟨hscope scope hmem, fun language =>
    Target.nodup_ident_iff language scope⟩, hiff, fun hplain => ?_⟩
  have hdistinct : ∀ scope ∈ Target.scopes r.schema, ∀ language,
      (scope.map (Target.Site.ident language r.schema)).Nodup := by
    intro scope hmem language
    refine (Target.nodup_ident_iff language scope).mpr
      (Target.pairwise_of_isPlain (hscope scope hmem) fun x hx => hplain x ?_)
    exact Target.mem_sites_of_mem_scopes hs hmem hx
  refine ⟨hdistinct, fun hscheme hparts hempty => hiff.mpr ⟨fun scope hmem =>
    hdistinct scope hmem .swift, fun a ha b hb hla hlb hne => ?_⟩⟩
  exact Target.Swift.qualified_ne_of_simple hs hfit
    (Resolve.isSimple_of_underscored h hscheme hparts) hplain hempty ha hb hla hlb hne

namespace Sample

/-- A file with two types whose names have the same words. -/
def joined : SourceFile :=
  { file := 0
    identity := ⟨⟨["foo"]⟩, none⟩
    tree :=
      { doc := []
        imports := []
        decls :=
          [⟨[], [], ⟨"A_B", default⟩, .type [], default⟩,
            ⟨[], [], ⟨"AB", default⟩, .type [], default⟩] } }

/-- The schema of the two types. -/
def joinedSchema : Schema :=
  ⟨[{ identity := ⟨⟨["foo"]⟩, none⟩
      ns := ⟨["foo"], none⟩
      doc := []
      decls :=
        [⟨⟨0, 0⟩, "A_B", [], none, [], .type [], default⟩,
          ⟨⟨0, 1⟩, "AB", [], none, [], .type [], default⟩]
      roots := [0, 1] }]⟩

theorem resolve_joined :
    resolve options [joined] = .ok ⟨joinedSchema, []⟩ := by
  with_unfolding_all rfl

end Sample

theorem resolve_idents_shapes :
    resolve Sample.options [Sample.shapes] = .ok ⟨Sample.schema, []⟩ ∧
      (∀ f ∈ [Sample.shapes], f.identity.name.IsValid) ∧
      (Target.sites Sample.schema).map (Target.Swift.siteName Sample.schema) =
        ["Shapes_Shape", "Shapes_Shape.Point", "Shapes_Shape.Line", "Shapes_Shape.Unit"] ∧
      ((Target.sites Sample.schema).map (Target.Swift.siteName Sample.schema)).Nodup := by
  have hvalid : ∀ f ∈ [Sample.shapes], f.identity.name.IsValid := by
    intro f hf
    rw [List.mem_singleton.mp hf]
    exact ⟨"shapes", by decide +kernel⟩
  obtain ⟨-, -, hplain⟩ := resolve_idents Sample.resolve_shapes hvalid
  refine ⟨Sample.resolve_shapes, hvalid, by decide +kernel, ?_⟩
  exact (hplain (by decide)).2 rfl (by decide) (by decide)

/-- Two types of one package have one identifier in every language, and one name in Swift. -/
theorem exists_shared_ident :
    resolve Sample.options [Sample.joined] = .ok ⟨Sample.joinedSchema, []⟩ ∧
      Target.outermost Sample.joinedSchema 0 ∈ Target.scopes Sample.joinedSchema ∧
      (∀ language, (Target.outermost Sample.joinedSchema 0).map
        (Target.Site.ident language Sample.joinedSchema) = ["AB", "AB"]) ∧
      ¬((Target.sites Sample.joinedSchema).map
        (Target.Swift.siteName Sample.joinedSchema)).Nodup := by
  have hnames : (Target.sites Sample.joinedSchema).map
      (Target.Swift.siteName Sample.joinedSchema) = ["Foo_AB", "Foo_AB"] := by
    decide +kernel
  refine ⟨Sample.resolve_joined, List.mem_cons_self, fun language => ?_, ?_⟩
  · cases language <;> decide +kernel
  · rw [hnames]
    decide

end Schemata
