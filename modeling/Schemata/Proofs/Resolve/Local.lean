import Schemata.Proofs.Resolve.Convert
import Schemata.Resolve.Basic

/-!
# Local errors

Most errors of a resolution are local: they are about what one import or one
declaration says.  The others are about packages that are named alike, and about
names that mean nothing.  Registration, imports and the checks of declarations
have local errors only.

**Results.** `allLocal_tables`, and one lemma for each check of a declaration.
-/

namespace Schemata

/-- The error is neither about packages that are named alike nor about a name that means
nothing. -/
def ResolveError.isLocal
    (e : ResolveError) :
    Bool :=
  match e.problem with
  | .duplicatePackage _ | .namespaceCollision _ | .unresolvedReference _ => false
  | _ => true

/-- Every error is local. -/
def AllLocal
    (errors : List ResolveError) : Prop :=
  ∀ e ∈ errors, e.isLocal = true

section Lists

variable {errors : List ResolveError}

@[simp] theorem allLocal_nil :
    AllLocal [] :=
  List.forall_mem_nil _

@[simp] theorem allLocal_cons
    (e : ResolveError) :
    AllLocal (e :: errors) ↔ e.isLocal = true ∧ AllLocal errors :=
  List.forall_mem_cons

@[simp] theorem allLocal_append
    (errors' : List ResolveError) :
    AllLocal (errors ++ errors') ↔ AllLocal errors ∧ AllLocal errors' :=
  List.forall_mem_append

@[simp] theorem allLocal_map
    {α : Type}
    (xs : List α)
    (f : α → ResolveError) :
    AllLocal (xs.map f) ↔ ∀ x ∈ xs, (f x).isLocal = true :=
  List.forall_mem_map

theorem allLocal_flatMap
    {α : Type}
    {xs : List α}
    {f : α → List ResolveError}
    (h : ∀ x ∈ xs, AllLocal (f x)) :
    AllLocal (xs.flatMap f) := by
  intro e he
  obtain ⟨x, hx, he⟩ := List.mem_flatMap.mp he
  exact h x hx e he

/-- Local errors have none of a sort to which no local error belongs. -/
theorem AllLocal.filter_eq_nil
    (h : AllLocal errors)
    {p : ResolveError → Bool}
    (hp : ∀ e, e.isLocal = true → p e = false) :
    errors.filter p = [] :=
  List.filter_eq_nil_iff.mpr fun e he => by simp [hp e (h e he)]

end Lists

theorem allLocal_repeatedNames
    (what : String)
    (seen : Seen)
    (names : List (Located String)) :
    AllLocal (repeatedNames what seen names) := by
  induction names generalizing seen with
  | nil =>
      exact allLocal_nil
  | cons name names ih =>
      rw [repeatedNames]
      split
      · exact (allLocal_cons _).mpr ⟨rfl, ih seen⟩
      · exact ih _

namespace Convert

section Checks

theorem allLocal_keyErrors
    (ctx : Context)
    (key : TypeExpr) :
    AllLocal (keyErrors ctx key) := by
  unfold keyErrors
  split
  · exact allLocal_nil
  · exact (allLocal_cons _).mpr ⟨rfl, allLocal_nil⟩

theorem allLocal_repeatedFields
    (names jsonNames : Seen)
    (fields : List (Field × Bool)) :
    AllLocal (repeatedFields names jsonNames fields) := by
  induction fields generalizing names jsonNames with
  | nil =>
      exact allLocal_nil
  | cons entry fields ih =>
      obtain ⟨f, counts⟩ := entry
      rw [repeatedFields]
      split
      · cases counts with
        | true =>
            exact (allLocal_cons _).mpr ⟨rfl, ih _ _⟩
        | false =>
            exact ih _ _
      · dsimp only
        split
        · cases counts with
          | true =>
              exact (allLocal_cons _).mpr ⟨rfl, ih _ _⟩
          | false =>
              exact ih _ _
        · exact ih _ _

theorem allLocal_typeInfoArgument
    (info : TypeInfo)
    (arg : Tree.Argument) :
    AllLocal (typeInfoArgument info arg).errors := by
  unfold typeInfoArgument
  split
  · simp [ResolveError.isLocal, ResolveError.located]
  · split
    · split
      · exact allLocal_nil
      · split
        · exact allLocal_nil
        · simp [ResolveError.isLocal, ResolveError.located]
    · simp [ResolveError.isLocal, ResolveError.located]

theorem allLocal_typeInfoArguments
    (info : TypeInfo)
    (args : List Tree.Argument) :
    AllLocal (typeInfoArguments info args).errors := by
  induction args generalizing info with
  | nil =>
      exact allLocal_nil
  | cons arg args ih =>
      rw [typeInfoArguments, Checked.errors_bind, allLocal_append]
      exact ⟨allLocal_typeInfoArgument info arg, ih _⟩

theorem allLocal_strategyOf
    (defaultTag : String)
    (span : Span)
    (before : Strategy)
    (info : TypeInfo) :
    AllLocal (strategyOf defaultTag span before info).errors := by
  unfold strategyOf
  split
  · exact allLocal_nil
  · exact allLocal_nil
  · split
    · simp [ResolveError.isLocal, ResolveError.located]
    · exact allLocal_nil
  · simp [ResolveError.isLocal, ResolveError.located]

theorem allLocal_strategy
    (defaultTag : String)
    (before : Strategy)
    (attributes : List Tree.Attribute) :
    AllLocal (strategy defaultTag before attributes).errors := by
  induction attributes generalizing before with
  | nil =>
      exact allLocal_nil
  | cons a attributes ih =>
      rw [strategy]
      split
      · simp only [Checked.errors_bind, allLocal_append]
        exact ⟨allLocal_typeInfoArguments _ _, allLocal_strategyOf _ _ _ _, ih _⟩
      · rw [Checked.errors_bind, allLocal_append]
        exact ⟨(allLocal_cons _).mpr ⟨rfl, allLocal_nil⟩, ih _⟩

theorem allLocal_subTypeName
    (names : Seen)
    (c : Tree.SubType Tree.Decl) :
    AllLocal (subTypeName names c).errors := by
  unfold subTypeName
  split
  · simp [ResolveError.isLocal, ResolveError.repeated]
  · exact allLocal_nil

theorem allLocal_literal
    (c : Tree.SubType Tree.Decl) :
    AllLocal (literal c).errors := by
  unfold literal
  split
  · exact allLocal_nil
  · split
    · exact allLocal_nil
    · simp [ResolveError.isLocal, ResolveError.located]

theorem allLocal_subTypeLiteral
    (literals : Seen)
    (c : Tree.SubType Tree.Decl)
    (text : String) :
    AllLocal (subTypeLiteral literals c text).errors := by
  unfold subTypeLiteral
  split
  · simp [ResolveError.isLocal, ResolveError.repeated]
  · exact allLocal_nil

theorem allLocal_tagConflicts
    (body : InterfaceBody) :
    AllLocal (tagConflicts body) := by
  unfold tagConflicts
  split
  · exact allLocal_nil
  · exact (allLocal_map _ _).mpr fun _ _ => rfl

theorem allLocal_checkPair
    (body : InterfaceBody)
    (earlier later : SubType) :
    AllLocal (Untagged.checkPair body earlier later) := by
  unfold Untagged.checkPair
  dsimp only
  split
  · split
    · exact (allLocal_cons _).mpr ⟨rfl, allLocal_nil⟩
    · exact (allLocal_cons _).mpr ⟨rfl, allLocal_nil⟩
  · exact allLocal_nil

theorem allLocal_checkPairs
    (body : InterfaceBody)
    (cases : List SubType) :
    AllLocal (Untagged.checkPairs body cases) := by
  induction cases with
  | nil =>
      exact allLocal_nil
  | cons c cases ih =>
      rw [Untagged.checkPairs, allLocal_append]
      exact ⟨allLocal_flatMap fun later _ => allLocal_checkPair body c later, ih⟩

theorem allLocal_checkOptional
    (body : InterfaceBody) :
    AllLocal (Untagged.checkOptional body) := by
  refine allLocal_flatMap fun x _ e he => ?_
  obtain ⟨f, -, hf⟩ := List.mem_filterMap.mp he
  obtain ⟨other, -, rfl⟩ := Option.map_eq_some_iff.mp hf
  rfl

theorem allLocal_untaggedErrors
    (body : InterfaceBody) :
    AllLocal (untaggedErrors body) := by
  unfold untaggedErrors
  split
  · rw [Untagged.check, allLocal_append]
    exact ⟨allLocal_checkPairs body _, allLocal_checkOptional body⟩
  · exact allLocal_nil

theorem allLocal_enumType
    (written : Option (Located TypeExpr)) :
    AllLocal (enumType written).errors := by
  unfold enumType
  split
  · exact allLocal_nil
  · split <;> simp [ResolveError.isLocal, ResolveError.located]

theorem allLocal_enumMembers
    (valueType : EnumType)
    (names : Seen)
    (values : List (EnumValue × Span))
    (members : List Tree.EnumMember) :
    AllLocal (enumMembers valueType names values members).errors := by
  induction members generalizing names values with
  | nil =>
      exact allLocal_nil
  | cons m members ih =>
      rw [enumMembers, Checked.errors_bind, allLocal_append]
      refine ⟨allLocal_repeatedNames _ _ _, ?_⟩
      dsimp only
      split
      · rw [Checked.errors_bind, allLocal_append]
        exact ⟨(allLocal_cons _).mpr ⟨rfl, allLocal_nil⟩, ih _ _⟩
      · split
        · rw [Checked.errors_bind, allLocal_append]
          exact ⟨(allLocal_cons _).mpr ⟨rfl, allLocal_nil⟩, ih _ _⟩
        · simp [ih]

theorem allLocal_enum
    (written : Option (Located TypeExpr))
    (members : List Tree.EnumMember) :
    AllLocal (enum written members).errors := by
  simp [enum, allLocal_enumType, allLocal_enumMembers]

theorem allLocal_repeatedId
    (ids : Seen)
    (id : String)
    (span : Span) :
    AllLocal (repeatedId ids id span) := by
  unfold repeatedId
  split
  · exact (allLocal_cons _).mpr ⟨rfl, allLocal_nil⟩
  · exact allLocal_nil

theorem allLocal_unknownAttributes
    (d : Tree.Decl) :
    AllLocal (unknownAttributes d) := by
  unfold unknownAttributes
  split
  · exact allLocal_nil
  · exact (allLocal_map _ _).mpr fun _ _ => rfl

theorem allLocal_optionalErrors
    (fields : List Field) :
    AllLocal (optionalErrors fields) :=
  (allLocal_map _ _).mpr fun _ _ => rfl

end Checks

end Convert

section Packages

namespace Resolve

/-- What is reported of packages that are defined twice. -/
theorem problem_of_mem_duplicatePackages
    {seen : List Identity}
    {files : List SourceFile}
    {e : ResolveError}
    (h : e ∈ duplicatePackages seen files) :
    ∃ name, e.problem = .duplicatePackage name := by
  induction files generalizing seen with
  | nil =>
      cases h
  | cons f files ih =>
      rw [duplicatePackages] at h
      split at h
      · rcases List.mem_cons.mp h with rfl | h
        · exact ⟨_, rfl⟩
        · exact ih h
      · exact ih h

/-- The errors of namespaces are about packages that are named alike. -/
theorem problem_of_mem_namespaces
    {scheme : VersionScheme}
    {files : List SourceFile}
    {e : ResolveError}
    (h : e ∈ (namespaces scheme files).errors) :
    (e ∈ duplicatePackages [] files ∧ ∃ name, e.problem = .duplicatePackage name) ∨
      ∃ collision, e.problem = .namespaceCollision collision := by
  unfold namespaces at h
  dsimp only at h
  split at h
  · split at h
    · cases h
    · obtain ⟨collision, -, rfl⟩ := List.mem_map.mp h
      exact .inr ⟨collision, rfl⟩
  · exact .inl ⟨h, problem_of_mem_duplicatePackages h⟩

end Resolve

end Packages

section Tables

theorem allLocal_register
    (next : Nat)
    (parent : Option Nat)
    (seen : Seen)
    (decls : List Tree.Decl) :
    AllLocal (register next parent seen decls).errors := by
  induction next, parent, seen, decls using register.induct with
  | case1 next parent seen =>
      rw [register]
      exact allLocal_nil
  | case2 next parent seen d rest previous hseen ih =>
      rw [register]
      simp only [hseen, Checked.errors_bind, allLocal_append]
      exact ⟨(allLocal_cons _).mpr ⟨rfl, allLocal_nil⟩, ih⟩
  | case3 next parent seen d rest hnew ihInner ihOuter =>
      rw [register]
      simp only [hnew, Checked.errors_bind, allLocal_append]
      exact ⟨ihInner, ihOuter _, allLocal_nil⟩

theorem isLocal_of_selectImport
    {installed : List Identity}
    {i : Tree.Import}
    {e : ResolveError}
    (h : selectImport installed i = .error e) :
    e.isLocal = true := by
  unfold selectImport at h
  dsimp only at h
  split at h
  · rename_i e' hrange
    obtain rfl := Except.error.inj h
    split at hrange
    · cases hrange
    · split at hrange
      · cases hrange
      · obtain rfl := Except.error.inj hrange
        rfl
  · split at h
    · cases h
    · obtain rfl := Except.error.inj h
      rfl
    · obtain rfl := Except.error.inj h
      rfl

theorem allLocal_resolveImports
    (installed : List Identity)
    (known : List ImportEntry)
    (imports : List Tree.Import) :
    AllLocal (resolveImports installed known imports).errors := by
  induction imports generalizing known with
  | nil =>
      exact allLocal_nil
  | cons i imports ih =>
      rw [resolveImports]
      split
      · rename_i e hselect
        rw [Checked.errors_bind, allLocal_append]
        exact ⟨(allLocal_cons _).mpr ⟨isLocal_of_selectImport hselect, allLocal_nil⟩, ih known⟩
      · split
        · rw [Checked.errors_bind, allLocal_append]
          exact ⟨(allLocal_cons _).mpr ⟨rfl, allLocal_nil⟩, ih known⟩
        · exact ih _

/-- Tables come with local errors only. -/
theorem allLocal_tables
    (files : List SourceFile) :
    AllLocal (Resolve.tables files).errors := by
  simp only [Resolve.tables, Resolve.registerAll, Resolve.importAll, Checked.errors_bind,
    Checked.errors_pure, Checked.errors_mapM, List.append_nil, allLocal_append]
  exact ⟨allLocal_flatMap fun _ _ => allLocal_register _ _ _ _,
    allLocal_flatMap fun _ _ => allLocal_resolveImports _ _ _⟩

end Tables

end Schemata
