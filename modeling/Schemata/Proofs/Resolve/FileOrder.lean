import Schemata.Proofs.Package.Selection
import Schemata.Proofs.Resolve.Assembly
import Schemata.Proofs.Resolve.Renaming
import Schemata.Proofs.Resolve.WellFormed

/-!
# The order of files does not matter

Files in another order resolve exactly when they resolve in the first one, and
then to the same packages in the new order, the numbers of packages renamed
accordingly.  `Moves σ` says where the files go: the one at `i` goes to `σ i`.

The order could show in four places.  A package that two files define is an
error in each order.  A namespace depends on the other packages as a set, and
two that agree are an error in each order.  Among distinct identities, imports
select the best one (`Request.IsBest`), which the order does not change.  And
names mean the places that the imports say, so the renamed ones.

**Results.** `resolve_of_perm`.
-/

namespace Schemata

section Moves

variable {α β : Type}

/-- What is at `i` goes to `σ i`. -/
def Moves
    (σ : Equiv.Perm Nat)
    (xs ys : List α) : Prop :=
  ∀ i, ys[σ i]? = xs[i]?

namespace Moves

variable {σ τ : Equiv.Perm Nat}
variable {xs ys zs : List α}

theorem symm
    (h : Moves σ xs ys) :
    Moves σ.symm ys xs := by
  intro i
  rw [← h, Equiv.apply_symm_apply]

theorem trans
    (h : Moves σ xs ys)
    (h' : Moves τ ys zs) :
    Moves (σ.trans τ) xs zs := by
  intro i
  rw [Equiv.trans_apply, h', h]

theorem map
    (f : α → β)
    (h : Moves σ xs ys) :
    Moves σ (xs.map f) (ys.map f) := by
  intro i
  rw [List.getElem?_map, List.getElem?_map, h]

theorem mem
    (h : Moves σ xs ys)
    {x : α}
    (hx : x ∈ xs) :
    x ∈ ys := by
  obtain ⟨i, hi⟩ := List.mem_iff_getElem?.mp hx
  rw [← h] at hi
  exact List.mem_of_getElem? hi

end Moves

/-- Leave the first position and move the others as `σ` says. -/
def shiftPerm
    (σ : Equiv.Perm Nat) :
    Equiv.Perm Nat where
  toFun
    | 0 => 0
    | i + 1 => σ i + 1
  invFun
    | 0 => 0
    | i + 1 => σ.symm i + 1
  left_inv
    | 0 => rfl
    | i + 1 => by
        simp
  right_inv
    | 0 => rfl
    | i + 1 => by
        simp

theorem exists_moves
    {xs ys : List α}
    (h : xs.Perm ys) :
    ∃ σ, Moves σ xs ys := by
  induction h with
  | nil =>
      exact ⟨Equiv.refl Nat, fun _ => rfl⟩
  | cons x _ ih =>
      obtain ⟨σ, hσ⟩ := ih
      refine ⟨shiftPerm σ, fun i => ?_⟩
      cases i with
      | zero =>
          rfl
      | succ i =>
          exact hσ i
  | swap x y rest =>
      refine ⟨Equiv.swap 0 1, fun i => ?_⟩
      match i with
      | 0 =>
          rw [Equiv.swap_apply_left]
          rfl
      | 1 =>
          rw [Equiv.swap_apply_right]
          rfl
      | i + 2 =>
          rw [Equiv.swap_apply_of_ne_of_ne (by omega) (by omega)]
          rfl
  | trans _ _ ih ih' =>
      obtain ⟨σ, hσ⟩ := ih
      obtain ⟨τ, hτ⟩ := ih'
      exact ⟨σ.trans τ, hσ.trans hτ⟩

end Moves

namespace Namespace

section Order

variable {packages packages' : List Identity}

theorem siblings_perm
    (h : packages.Perm packages')
    (name : PackageName)
    (v : Version) :
    (siblings packages name v).Perm (siblings packages' name v) :=
  h.filterMap _

/-- A namespace depends on the packages around it, not on their order. -/
theorem ofPackage_eq_of_perm
    (h : packages.Perm packages')
    (scheme : VersionScheme) :
    ofPackage scheme packages = ofPackage scheme packages' := by
  funext identity
  simp only [ofPackage, minimalLevel, (siblings_perm h identity.name _).all_eq]

theorem collisions_eq_nil_iff
    (owners xs : List (Namespace × Identity)) :
    collisions owners xs = [] ↔
      (xs.map Prod.fst).Nodup ∧ ∀ x ∈ xs, x.1 ∉ owners.map Prod.fst := by
  induction xs generalizing owners with
  | nil =>
      simp [collisions]
  | cons x xs ih =>
      obtain ⟨ns, identity⟩ := x
      rw [collisions]
      cases hfind : owners.find? (·.1 = ns) with
      | some owner =>
          have hmem : ns ∈ owners.map Prod.fst := by
            have hsame := List.find?_some hfind
            simp only [decide_eq_true_eq] at hsame
            rw [← hsame]
            exact List.mem_map_of_mem (List.mem_of_find?_eq_some hfind)
          simp only [reduceCtorEq, false_iff, not_and]
          intro _ hnew
          exact hnew (ns, identity) List.mem_cons_self hmem
      | none =>
          have hnew : ns ∉ owners.map Prod.fst := by
            intro hmem
            obtain ⟨owner, howner, hsame⟩ := List.mem_map.mp hmem
            simpa [hsame] using List.find?_eq_none.mp hfind owner howner
          simp only [ih, List.map_append, List.map_cons, List.map_nil, List.mem_append,
            List.mem_singleton, List.nodup_cons, List.forall_mem_cons]
          constructor
          · rintro ⟨hnodup, hrest⟩
            refine ⟨⟨?_, hnodup⟩, hnew, fun x hx => (not_or.mp (hrest x hx)).1⟩
            intro hmem
            obtain ⟨x, hx, hsame⟩ := List.mem_map.mp hmem
            exact (not_or.mp (hrest x hx)).2 hsame
          · rintro ⟨⟨hnotMem, hnodup⟩, -, hrest⟩
            refine ⟨hnodup, fun x hx => not_or.mpr ⟨hrest x hx, fun hsame => ?_⟩⟩
            exact hnotMem (hsame ▸ List.mem_map_of_mem hx)

end Order

end Namespace

namespace Resolve

theorem duplicatePackages_eq_nil_iff
    (seen : List Identity)
    (files : List SourceFile) :
    duplicatePackages seen files = [] ↔
      (files.map (·.identity)).Nodup ∧ ∀ f ∈ files, f.identity ∉ seen := by
  induction files generalizing seen with
  | nil =>
      simp [duplicatePackages]
  | cons f files ih =>
      rw [duplicatePackages]
      split
      · rename_i hseen
        have hmem : f.identity ∈ seen := by
          simpa using hseen
        simp [hmem]
      · rename_i hseen
        have hnew : f.identity ∉ seen := by
          simpa using hseen
        rw [ih, List.map_cons, List.nodup_cons, List.forall_mem_cons]
        constructor
        · rintro ⟨hnodup, hrest⟩
          refine ⟨⟨?_, hnodup⟩, hnew, fun g hg => List.not_mem_of_not_mem_cons (hrest g hg)⟩
          intro hmem
          obtain ⟨g, hg, hsame⟩ := List.mem_map.mp hmem
          exact List.ne_of_not_mem_cons (hrest g hg) hsame
        · rintro ⟨⟨hnotMem, hnodup⟩, -, hrest⟩
          refine ⟨hnodup, fun g hg => List.not_mem_cons_of_ne_of_not_mem ?_ (hrest g hg)⟩
          intro hsame
          exact hnotMem (hsame ▸ List.mem_map_of_mem hg)

/-- The namespaces of files, where nothing collides. -/
def assigned
    (scheme : VersionScheme)
    (files : List SourceFile) :
    List Namespace :=
  (files.map (·.identity)).map (Namespace.ofPackage scheme (files.map (·.identity)))

theorem collisions_assigned_eq_nil_iff
    (scheme : VersionScheme)
    (files : List SourceFile) :
    Namespace.collisions [] ((assigned scheme files).zip (files.map (·.identity))) = [] ↔
      (assigned scheme files).Nodup := by
  rw [Namespace.collisions_eq_nil_iff, List.map_fst_zip (by simp [assigned])]
  simp

/-- Distinct identities with distinct namespaces have no errors. -/
theorem namespaces_of_nodup
    {scheme : VersionScheme}
    {files : List SourceFile}
    (hdistinct : (files.map (·.identity)).Nodup)
    (hassigned : (assigned scheme files).Nodup) :
    namespaces scheme files = ⟨assigned scheme files, []⟩ := by
  have hduplicates : duplicatePackages [] files = [] :=
    (duplicatePackages_eq_nil_iff [] files).mpr ⟨hdistinct, by simp⟩
  have hcollisions := (collisions_assigned_eq_nil_iff scheme files).mpr hassigned
  unfold namespaces Namespace.assign
  dsimp only
  rw [hduplicates, ← assigned, hcollisions]

theorem errors_namespaces_eq_nil_iff
    (scheme : VersionScheme)
    (files : List SourceFile) :
    (namespaces scheme files).errors = [] ↔
      (files.map (·.identity)).Nodup ∧ (assigned scheme files).Nodup := by
  constructor
  · intro h
    unfold namespaces Namespace.assign at h
    dsimp only at h
    cases hduplicates : duplicatePackages [] files with
    | cons e errors =>
        rw [hduplicates] at h
        cases h
    | nil =>
        rw [hduplicates, ← assigned] at h
        refine ⟨((duplicatePackages_eq_nil_iff [] files).mp hduplicates).1,
          (collisions_assigned_eq_nil_iff scheme files).mp ?_⟩
        cases hcollisions : Namespace.collisions []
            ((assigned scheme files).zip (files.map (·.identity))) with
        | nil =>
            rfl
        | cons c collisions =>
            rw [hcollisions] at h
            cases h
  · rintro ⟨hdistinct, hassigned⟩
    rw [namespaces_of_nodup hdistinct hassigned]

end Resolve

section Imports

variable {σ : Equiv.Perm Nat}
variable {installed installed' : List Identity}

theorem Request.isBest_of_moves
    {request : Request}
    (h : Moves σ installed installed')
    {index : Nat}
    (hbest : request.IsBest installed index) :
    request.IsBest installed' (σ index) := by
  obtain ⟨x, hx, haccepts, hbest⟩ := hbest
  refine ⟨x, (h index).trans hx, haccepts, fun j y hy hacceptsY => ?_⟩
  rw [← h.symm] at hy
  rcases hbest (σ.symm j) y hy hacceptsY with heq | hlower
  · exact Or.inl (by rw [← heq, Equiv.apply_symm_apply])
  · exact Or.inr hlower

/-- Where one package is found, it is found in its new place. -/
theorem selectImport_of_moves
    (h : Moves σ installed installed')
    (hdistinct : installed.Nodup)
    (hdistinct' : installed'.Nodup)
    {i : Tree.Import}
    {target : Nat}
    (hselect : selectImport installed i = .ok target) :
    selectImport installed' i = .ok (σ target) := by
  unfold selectImport at hselect ⊢
  dsimp only at hselect ⊢
  split at hselect
  · cases hselect
  · split at hselect
    · rename_i found hfound
      obtain rfl := Except.ok.inj hselect
      have hbest := (Request.select_eq_found_iff hdistinct found).mp hfound
      rw [(Request.select_eq_found_iff hdistinct' (σ found)).mpr
        (Request.isBest_of_moves h hbest)]
    · cases hselect
    · cases hselect

/-- An import with its package renamed. -/
def ImportEntry.rename
    (σ : Nat → Nat)
    (i : ImportEntry) :
    ImportEntry :=
  { i with package := σ i.package }

theorem find?_map_rename
    (σ : Nat → Nat)
    (known : List ImportEntry)
    (name : String) :
    (known.map (ImportEntry.rename σ)).find? (·.name == name) =
      (known.find? (·.name == name)).map (ImportEntry.rename σ) := by
  rw [List.find?_map]
  rfl

/-- Imports select the moved packages, and have errors in both orders or in none. -/
theorem resolveImports_of_moves
    (h : Moves σ installed installed')
    (hdistinct : installed.Nodup)
    (hdistinct' : installed'.Nodup)
    (known : List ImportEntry)
    (imports : List Tree.Import) :
    (resolveImports installed' (known.map (ImportEntry.rename σ)) imports).value =
        (resolveImports installed known imports).value.map (ImportEntry.rename σ) ∧
      ((resolveImports installed known imports).errors = [] →
        (resolveImports installed' (known.map (ImportEntry.rename σ)) imports).errors = []) := by
  induction imports generalizing known with
  | nil =>
      simp [resolveImports]
  | cons i rest ih =>
      cases hselect : selectImport installed i with
      | error e =>
          obtain ⟨e', hselect'⟩ : ∃ e', selectImport installed' i = .error e' := by
            cases hselect' : selectImport installed' i with
            | error e' =>
                exact ⟨e', rfl⟩
            | ok target =>
                have hback := selectImport_of_moves h.symm hdistinct' hdistinct hselect'
                rw [hselect] at hback
                cases hback
          simp [resolveImports, hselect, hselect', (ih known).1]
      | ok target =>
          have hselect' := selectImport_of_moves h hdistinct hdistinct' hselect
          have hfind' := find?_map_rename σ known i.localName
          cases hfind : known.find? (·.name == i.localName) with
          | some earlier =>
              rw [hfind, Option.map_some] at hfind'
              simp only [resolveImports, hselect, hselect', hfind, hfind', Checked.value_bind,
                Checked.errors_bind, Checked.errors_report, (ih known).1, true_and]
              intro h
              cases h
          | none =>
              rw [hfind, Option.map_none] at hfind'
              have hnext := ih (known ++ [⟨i.localName, target, i.span⟩])
              rw [List.map_append, List.map_singleton, ImportEntry.rename] at hnext
              simpa only [resolveImports, hselect, hselect', hfind, hfind'] using hnext

end Imports

namespace Table

/-- A table with the packages of its imports renamed. -/
def rename
    (σ : Nat → Nat)
    (t : Table) :
    Table :=
  { t with imports := t.imports.map (ImportEntry.rename σ) }

/-- Where tables are renamed, names mean the renamed places. -/
theorem resolve?_rename
    {σ : Nat → Nat}
    {tables tables' : List Table}
    (h : ∀ p, tables'[σ p]? = tables[p]?.map (rename σ))
    (package index : Nat)
    (name : TypeName) :
    resolve? tables' (σ package) index name =
      (resolve? tables package index name).map (DeclId.rename σ) := by
  unfold resolve?
  rw [h package]
  cases tables[package]? with
  | none =>
      rfl
  | some t =>
      cases name.qualifier with
      | none =>
          simp only [Option.map_some, Option.map_map]
          rfl
      | some qualifier =>
          have hfind : (rename σ t).imports.find? (·.name == qualifier) =
              (t.imports.find? (·.name == qualifier)).map (ImportEntry.rename σ) :=
            find?_map_rename σ t.imports qualifier
          simp only [Option.map_some, hfind]
          cases t.imports.find? (·.name == qualifier) with
          | none =>
              rfl
          | some found =>
              simp only [Option.map_some, ImportEntry.rename, h found.package]
              cases tables[found.package]? with
              | none =>
                  rfl
              | some target =>
                  simp only [Option.map_some, Option.map_map]
                  rfl

end Table

namespace Resolve

section Order

variable {σ : Equiv.Perm Nat}
variable {files files' : List SourceFile}

theorem nodup_assigned_of_perm
    {scheme : VersionScheme}
    (hperm : files.Perm files')
    (h : (assigned scheme files).Nodup) :
    (assigned scheme files').Nodup := by
  have hidentities := hperm.map (·.identity)
  have hassigned := hidentities.map (Namespace.ofPackage scheme (files.map (·.identity)))
  rw [assigned, ← Namespace.ofPackage_eq_of_perm hidentities]
  exact hassigned.nodup_iff.mp h

/-- The table of a file is the renamed one. -/
theorem tableOf_of_moves
    (h : Moves σ files files')
    (hdistinct : (files.map (·.identity)).Nodup)
    (hdistinct' : (files'.map (·.identity)).Nodup)
    (f : SourceFile) :
    tableOf files' f = (tableOf files f).rename σ := by
  have himports :=
    (resolveImports_of_moves (h.map (·.identity)) hdistinct hdistinct' [] f.tree.imports).1
  simp only [List.map_nil] at himports
  simp only [tableOf, Table.rename, himports]

theorem tables_of_moves
    (h : Moves σ files files')
    (hdistinct : (files.map (·.identity)).Nodup)
    (hdistinct' : (files'.map (·.identity)).Nodup)
    (p : Nat) :
    (files'.map (tableOf files'))[σ p]? =
      ((files.map (tableOf files))[p]?).map (Table.rename σ) := by
  rw [List.getElem?_map, List.getElem?_map, h p, Option.map_map,
    show tableOf files' = Table.rename σ ∘ tableOf files from
      funext (tableOf_of_moves h hdistinct hdistinct')]

/-- A declaration resolves to the renamed one, with the same errors. -/
theorem entry_of_moves
    (h : Moves σ files files')
    (hdistinct : (files.map (·.identity)).Nodup)
    (hdistinct' : (files'.map (·.identity)).Nodup)
    (defaultTag : String)
    (package index : Nat)
    (e : Entry) :
    Convert.entry (files'.map (tableOf files')) defaultTag (σ package) index e =
      Decl.rename σ <$>
        Convert.entry (files.map (tableOf files)) defaultTag package index e :=
  Convert.entry_rename
    (Table.resolve?_rename (tables_of_moves h hdistinct hdistinct') package index) defaultTag e

end Order

section Success

variable (options : ResolveOptions)
variable (files : List SourceFile)

/-- A resolution has no errors when none of its parts has one. -/
theorem errors_schema_eq_nil_iff :
    (schema options files).errors = [] ↔
      (namespaces options.scheme files).errors = [] ∧
        (∀ f ∈ files, (register 0 none [] f.tree.decls).errors = []) ∧
        (∀ f ∈ files,
          (resolveImports (files.map (·.identity)) [] f.tree.imports).errors = []) ∧
        ∀ index f, files[index]? = some f → ∀ i e, Table.entry? (tableOf files f) i = some e →
          (Convert.entry (files.map (tableOf files)) options.defaultTag index i e).errors = [] := by
  simp only [errors_schema, tables, registerAll, importAll, Checked.errors_bind,
    Checked.errors_pure, Checked.errors_mapM, List.append_nil, List.append_eq_nil_iff,
    List.flatMap_eq_nil_iff, Prod.forall, List.mem_zipIdx_iff_getElem?, List.getElem?_map,
    Option.map_eq_some_iff, forall_exists_index, and_imp, and_assoc]
  constructor
  · rintro ⟨hnames, hregistered, himported, hentries⟩
    exact ⟨hnames, hregistered, himported, fun index f hf i e he =>
      hentries _ index f hf rfl e i he⟩
  · rintro ⟨hnames, hregistered, himported, hentries⟩
    refine ⟨hnames, hregistered, himported, ?_⟩
    rintro _ index f hf rfl e i he
    exact hentries index f hf i e he

/-- The package of a file. -/
theorem getElem?_packages
    (hdistinct : (files.map (·.identity)).Nodup)
    (hassigned : (assigned options.scheme files).Nodup)
    (index : Nat) :
    (schema options files).value.packages[index]? =
      (files[index]?).map fun f =>
        { identity := f.identity
          ns := Namespace.ofPackage options.scheme (files.map (·.identity)) f.identity
          doc := f.tree.doc
          decls := (tableOf files f).entries.zipIdx.map fun e =>
            (Convert.entry (files.map (tableOf files)) options.defaultTag index e.2 e.1).value
          roots := (tableOf files f).roots } := by
  rw [value_schema, packages_eq_mapM, Checked.value_mapM, List.getElem?_map, List.getElem?_zipIdx,
    units, namespaces_of_nodup hdistinct hassigned, assigned, List.map_map, List.zip_map', List.zip_map_right,
    List.getElem?_map]
  cases hfile : files[index]? with
  | none =>
      simp [List.getElem?_eq_none_iff.mp hfile]
  | some f =>
      simp [List.getElem?_zip_eq_some, hfile, package, entries_eq_mapM]

end Success

section Transport

variable {options : ResolveOptions}
variable {σ : Equiv.Perm Nat}
variable {files files' : List SourceFile}

/-- Files without errors have none in another order. -/
theorem errors_schema_of_moves
    (hperm : files.Perm files')
    (h : Moves σ files files')
    (hclean : (schema options files).errors = []) :
    (schema options files').errors = [] := by
  rw [errors_schema_eq_nil_iff, errors_namespaces_eq_nil_iff] at hclean ⊢
  obtain ⟨⟨hdistinct, hassigned⟩, hregistered, himported, hentries⟩ := hclean
  have hdistinct' := ((hperm.map (·.identity)).nodup_iff).mp hdistinct
  refine ⟨⟨hdistinct', nodup_assigned_of_perm hperm hassigned⟩,
    fun f hf => hregistered f (h.symm.mem hf), fun f hf => ?_, fun index f hf i e he => ?_⟩
  · exact (resolveImports_of_moves (h.map (·.identity)) hdistinct hdistinct' []
      f.tree.imports).2 (himported f (h.symm.mem hf))
  · rw [tableOf_of_moves h hdistinct hdistinct'] at he
    have hentry := entry_of_moves h hdistinct hdistinct' options.defaultTag (σ.symm index) i e
    rw [Equiv.apply_symm_apply] at hentry
    rw [hentry, Checked.errors_map]
    exact hentries (σ.symm index) f ((h.symm index).trans hf) i e he

/-- Files without errors resolve to the renamed packages. -/
theorem packages_of_moves
    (hperm : files.Perm files')
    (h : Moves σ files files')
    (hclean : (schema options files).errors = [])
    (index : Nat) :
    (schema options files').value.packages[σ index]? =
      ((schema options files).value.packages[index]?).map (Package.rename σ) := by
  have hnames := ((errors_schema_eq_nil_iff options files).mp hclean).1
  obtain ⟨hdistinct, hassigned⟩ := (errors_namespaces_eq_nil_iff _ _).mp hnames
  have hdistinct' := ((hperm.map (·.identity)).nodup_iff).mp hdistinct
  have hassigned' := nodup_assigned_of_perm hperm hassigned
  rw [getElem?_packages options files hdistinct hassigned,
    getElem?_packages options files' hdistinct' hassigned', h index, Option.map_map]
  congr 1
  funext f
  simp only [tableOf_of_moves h hdistinct hdistinct', Table.rename, Function.comp_apply,
    Package.rename, List.map_map, Package.mk.injEq, true_and, and_true,
    Namespace.ofPackage_eq_of_perm (hperm.map (·.identity))]
  refine List.map_congr_left fun e _ => ?_
  have hentry := entry_of_moves h hdistinct hdistinct' options.defaultTag index e.2 e.1
  rw [hentry]
  rfl

/-- Files with distinct identities import the renamed packages. -/
theorem importAll_of_moves
    (h : Moves σ files files')
    (hdistinct : (files.map (·.identity)).Nodup)
    (hdistinct' : (files'.map (·.identity)).Nodup)
    (index : Nat) :
    (importAll files').value[σ index]? =
      ((importAll files).value[index]?).map (List.map (ImportEntry.rename σ)) := by
  have himports := fun f : SourceFile =>
    (resolveImports_of_moves (h.map (·.identity)) hdistinct hdistinct' [] f.tree.imports).1
  simp only [List.map_nil] at himports
  simp only [importAll, Checked.value_mapM, List.getElem?_map, h index, Option.map_map, himports,
    Function.comp_def]

end Transport

end Resolve

/-- Resolution does not depend on the order of the files. -/
theorem resolve_of_perm
    (options : ResolveOptions)
    {files files' : List SourceFile}
    (hperm : files.Perm files') :
    (∃ σ, Moves σ files files') ∧
      ∀ σ, Moves σ files files' →
        ((∃ r, resolve options files = .ok r) ↔ ∃ r, resolve options files' = .ok r) ∧
          ∀ r r', resolve options files = .ok r → resolve options files' = .ok r' →
            (∀ i, r'.schema.packages[σ i]? = (r.schema.packages[i]?).map (Package.rename σ)) ∧
              ∀ i, (Resolve.importAll files').value[σ i]? =
                ((Resolve.importAll files).value[i]?).map (List.map (ImportEntry.rename σ)) := by
  refine ⟨exists_moves hperm, fun σ h => ?_⟩
  have hclean : ∀ fs, (∃ r, resolve options fs = .ok r) ↔
      (Resolve.schema options fs).errors = [] := by
    intro fs
    simp [Resolve.resolve_eq_ok_iff]
  rw [hclean, hclean]
  refine ⟨⟨Resolve.errors_schema_of_moves hperm h,
    Resolve.errors_schema_of_moves hperm.symm h.symm⟩, fun r r' hr hr' => ?_⟩
  obtain ⟨hnone, rfl⟩ := (Resolve.resolve_eq_ok_iff options files r).mp hr
  obtain ⟨hnone', rfl⟩ := (Resolve.resolve_eq_ok_iff options files' r').mp hr'
  refine ⟨Resolve.packages_of_moves hperm h hnone, ?_⟩
  rw [Resolve.errors_schema_eq_nil_iff, Resolve.errors_namespaces_eq_nil_iff] at hnone hnone'
  exact Resolve.importAll_of_moves h hnone.1.1 hnone'.1.1

namespace Sample

/-- A file with a type of rooms, in some version. -/
def rooms
    (file major : Nat) :
    SourceFile :=
  { file
    identity := ⟨⟨["rooms"]⟩, some ⟨major, 0, 0, [], []⟩⟩
    tree :=
      { doc := []
        imports := []
        decls := [⟨[], [], ⟨"Room", default⟩, .type [], default⟩] } }

/-- A file that imports the latest rooms. -/
def plans : SourceFile :=
  { file := 2
    identity := ⟨⟨["plans"]⟩, none⟩
    tree :=
      { doc := []
        imports := [⟨⟨⟨["rooms"]⟩, default⟩, some ⟨"*", default⟩, none, default⟩]
        decls :=
          [⟨[], [], ⟨"Plan", default⟩,
            .type [field "hall" false (.name ⟨some "rooms", ["Room"], default⟩)], default⟩] } }

theorem resolve_plans :
    ∃ r, resolve options [rooms 0 1, rooms 1 2, plans] = .ok r := by
  have hclean : (Resolve.schema options [rooms 0 1, rooms 1 2, plans]).errors = [] := by
    decide +kernel
  exact ⟨_, (Resolve.resolve_eq_ok_iff _ _ _).mpr ⟨hclean, rfl⟩⟩

end Sample

theorem resolve_of_perm_plans :
    (∃ r, resolve Sample.options [Sample.rooms 0 1, Sample.rooms 1 2, Sample.plans] = .ok r) ∧
      ∃ r, resolve Sample.options [Sample.plans, Sample.rooms 1 2, Sample.rooms 0 1] = .ok r := by
  have hperm : [Sample.rooms 0 1, Sample.rooms 1 2, Sample.plans].Perm
      [Sample.plans, Sample.rooms 1 2, Sample.rooms 0 1] :=
    (List.reverse_perm _).symm
  obtain ⟨⟨σ, hσ⟩, horder⟩ := resolve_of_perm Sample.options hperm
  exact ⟨Sample.resolve_plans, (horder σ hσ).1.mp Sample.resolve_plans⟩

end Schemata
