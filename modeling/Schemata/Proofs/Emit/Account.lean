import Schemata.Proofs.Project.Path
import Schemata.Target.Basic
import Mathlib.Data.List.Lex
import Mathlib.Data.String.Basic
import Mathlib.Tactic

/-!
# What becomes of each declaration

Several backends write the selected outermost declarations of a schema.  Each
pair of a backend and a declaration ends in one place: its fragment is part of
one file of the backend, or its refusal is one of the errors.  Which pairs
share a file is known only after all of them are done, so files are described
by the declarations in them: a `Bundle` is a backend, a path, and the
declarations that the backend writes to that path, in the order of the schema.

The paths of one backend cannot disturb another one, since the names of the
backends are part of the keys by which fragments are sorted into files.

**Results.** `emit_accounts`.
-/

namespace Schemata

namespace Emit

section Keys

/-- The keys of files are ordered by backend and then by path. -/
theorem keyLe_iff
    (a b : String × List String) :
    keyLe a b = true ↔ toLex a ≤ toLex b := by
  simp [keyLe, Path.namesLe_iff, Prod.Lex.toLex_le_toLex]

theorem nodup_eraseDups
    {α : Type}
    [BEq α]
    [LawfulBEq α]
    (xs : List α) :
    xs.eraseDups.Nodup := by
  induction hn : xs.length using Nat.strongRecOn generalizing xs with
  | ind n ih =>
      cases xs with
      | nil =>
          exact List.nodup_nil
      | cons x xs =>
          rw [List.eraseDups_cons, List.nodup_cons]
          refine ⟨by simp, ih _ ?_ _ rfl⟩
          have hle := List.length_filter_le (fun y => !y == x) xs
          simp only [List.length_cons] at hn
          omega

/-- The keys of several files, each once and in order. -/
def sortedKeys
    (keys : List (String × List String)) :
    List (String × List String) :=
  keys.eraseDups.mergeSort keyLe

variable (keys : List (String × List String))

@[simp] theorem mem_sortedKeys
    (key : String × List String) :
    key ∈ sortedKeys keys ↔ key ∈ keys := by
  rw [sortedKeys, List.mem_mergeSort, List.mem_eraseDups]

theorem pairwise_sortedKeys :
    (sortedKeys keys).Pairwise fun a b => toLex a < toLex b := by
  have hle : (sortedKeys keys).Pairwise fun a b => toLex a ≤ toLex b := by
    refine (List.pairwise_mergeSort ?_ ?_ _).imp fun h => (keyLe_iff _ _).mp h
    · intro a b c hab hbc
      rw [keyLe_iff] at hab hbc ⊢
      exact hab.trans hbc
    · intro a b
      simpa [keyLe_iff] using le_total (toLex a) (toLex b)
  have hnodup : (sortedKeys keys).Nodup :=
    (List.mergeSort_perm _ _).nodup_iff.mpr (nodup_eraseDups keys)
  refine (hle.and hnodup).imp fun h => ?_
  exact lt_of_le_of_ne h.1 fun heq => h.2 (toLex.injective heq)

/-- Sorted keys are known by their members. -/
theorem filter_sortedKeys
    (kept : List (String × List String))
    (property : String × List String → Bool)
    (hkept : ∀ key, key ∈ kept ↔ key ∈ keys ∧ property key = true) :
    (sortedKeys keys).filter property = sortedKeys kept := by
  have hleft := (pairwise_sortedKeys keys).filter property
  have hright := pairwise_sortedKeys kept
  refine List.Perm.eq_of_pairwise (fun a b _ _ hab hba => absurd hba hab.asymm) hleft hright ?_
  refine (List.perm_ext_iff_of_nodup ?_ ?_).mpr fun key => ?_
  · exact hleft.imp fun h heq => (heq ▸ h).false
  · exact hright.imp fun h heq => (heq ▸ h).false
  · rw [List.mem_filter, mem_sortedKeys, mem_sortedKeys, hkept]

end Keys

/-- Where only one entry contributes, the others need not be looked at. -/
theorem flatMap_of_key
    {α β κ : Type}
    {key : β → κ}
    {xs : List β}
    (hkeys : (xs.map key).Nodup)
    {x : β}
    (hx : x ∈ xs)
    (f : β → List α)
    (hothers : ∀ y ∈ xs, key y ≠ key x → f y = []) :
    xs.flatMap f = f x := by
  induction xs with
  | nil =>
      cases hx
  | cons y rest ih =>
      rw [List.map_cons, List.nodup_cons] at hkeys
      rw [List.flatMap_cons]
      rcases List.mem_cons.mp hx with rfl | hrest
      · have hnil : rest.flatMap f = [] := by
          rw [List.flatMap_eq_nil_iff]
          intro y hy
          refine hothers y (List.mem_cons_of_mem _ hy) fun heq => hkeys.1 ?_
          exact heq ▸ List.mem_map_of_mem hy
        rw [hnil, List.append_nil]
      · have hne : key y ≠ key x := fun heq => hkeys.1 (heq ▸ List.mem_map_of_mem hrest)
        rw [hothers y List.mem_cons_self hne, List.nil_append]
        exact ih hkeys.2 hrest fun y hy => hothers y (List.mem_cons_of_mem _ hy)

/-- The outermost declarations that are written, by package and then as in the source. -/
def roots
    (s : Schema)
    (options : EmitOptions) :
    List DeclId :=
  (selected s options).flatMap s.rootsOf

/-- The backend has a fragment for the declaration, in the file with this path. -/
def writes
    (s : Schema)
    (b : Backend)
    (path : List String)
    (d : DeclId) :
    Bool :=
  (b.error? s d).isNone && b.path s d == path

/-- The declarations whose fragments are joined in one file of a backend. -/
structure Bundle where
  backend : Backend
  path : List String
  decls : List DeclId

/-- The file of a bundle. -/
def Bundle.file
    (g : Bundle)
    (s : Schema)
    (placement : Placement) :
    OutputFile :=
  { backend := g.backend.name
    path := g.path
    contents := g.backend.assemble s g.path
      (g.decls.map fun d => ⟨d, g.backend.text s placement d⟩) }

section Bundles

variable (s : Schema)
variable (options : EmitOptions)

/-- All that a backend writes to one path. -/
def bundle
    (b : Backend)
    (path : List String) :
    Bundle :=
  ⟨b, path, (roots s options).filter (writes s b path)⟩

/-- The jobs that give a fragment. -/
def done
    (backends : List Backend) :
    List Job :=
  (jobs s backends options).filter (·.succeeds s)

/-- The keys of the files that there are. -/
def keys
    (backends : List Backend) :
    List (String × List String) :=
  sortedKeys ((done s options backends).map (·.key s))

variable {backends : List Backend}

theorem jobs_eq :
    jobs s backends options =
      backends.flatMap fun b => (roots s options).map (Job.mk b) :=
  rfl

theorem files_eq :
    (emit s backends options).files =
      (keys s options backends).filterMap
        (file? s options.placement (done s options backends)) :=
  rfl

theorem errors_eq :
    (emit s backends options).errors =
      backends.flatMap fun b => (roots s options).filterMap (b.error? s) := by
  simp only [emit, jobs_eq, List.filterMap_flatMap, List.filterMap_map]
  rfl

theorem bundle_ne_nil
    {b : Backend}
    {d : DeclId}
    (hd : d ∈ roots s options)
    (hnone : b.error? s d = none) :
    (bundle s options b (b.path s d)).decls ≠ [] := by
  refine List.ne_nil_of_mem (a := d) (List.mem_filter.mpr ⟨hd, ?_⟩)
  simp [writes, hnone]

theorem mem_done
    (key : String × List String) :
    key ∈ (done s options backends).map (·.key s) ↔
      ∃ b ∈ backends, ∃ d ∈ roots s options,
        b.error? s d = none ∧ key = (b.name, b.path s d) := by
  simp only [done, jobs_eq, List.mem_map, List.mem_filter, List.mem_flatMap]
  constructor
  · rintro ⟨j, ⟨⟨b, hb, d, hd, rfl⟩, hdone⟩, rfl⟩
    exact ⟨b, hb, d, hd, Option.isNone_iff_eq_none.mp hdone, rfl⟩
  · rintro ⟨b, hb, d, hd, hnone, rfl⟩
    exact ⟨⟨b, d⟩, ⟨⟨b, hb, d, hd, rfl⟩, Option.isNone_iff_eq_none.mpr hnone⟩, rfl⟩

theorem mem_keys
    (key : String × List String) :
    key ∈ keys s options backends ↔
      ∃ b ∈ backends, ∃ d ∈ roots s options,
        b.error? s d = none ∧ key = (b.name, b.path s d) := by
  rw [keys, mem_sortedKeys, mem_done]

/-- A file has the key that it was asked for. -/
theorem key_of_file?
    {placement : Placement}
    {js : List Job}
    {key : String × List String}
    {f : OutputFile}
    (hf : file? s placement js key = some f) :
    (f.backend, f.path) = key := by
  unfold file? at hf
  split at hf
  · cases hf
  · obtain rfl := Option.some.inj hf
    rfl

theorem filter_files
    (placement : Placement)
    (js : List Job)
    (name : String)
    (ks : List (String × List String)) :
    (ks.filterMap (file? s placement js)).filter (·.backend == name) =
      (ks.filter (·.1 == name)).filterMap (file? s placement js) := by
  induction ks with
  | nil =>
      rfl
  | cons key ks ih =>
      cases hf : file? s placement js key with
      | none =>
          rw [List.filterMap_cons_none hf, ih, List.filter_cons]
          split
          · rw [List.filterMap_cons_none hf]
          · rfl
      | some f =>
          have hkey : f.backend = key.1 := congrArg Prod.fst (key_of_file? s hf)
          rw [List.filterMap_cons_some hf, List.filter_cons, List.filter_cons, hkey, ih]
          split
          · rw [List.filterMap_cons_some hf]
          · rfl

/-- Files come in the order of their keys, and no key comes twice. -/
theorem pairwise_files :
    (emit s backends options).files.Pairwise fun f g =>
      toLex (f.backend, f.path) < toLex (g.backend, g.path) := by
  rw [files_eq, List.pairwise_filterMap]
  refine (pairwise_sortedKeys _).imp fun {key key'} hlt f hf g hg => ?_
  rw [key_of_file? s hf, key_of_file? s hg]
  exact hlt

end Bundles

section Distinct

variable (s : Schema)
variable (options : EmitOptions)
variable {backends : List Backend}
variable (hnames : (backends.map (·.name)).Nodup)
variable {b : Backend}
variable (hb : b ∈ backends)

include hnames hb

theorem find?_name :
    backends.find? (·.name == b.name) = some b := by
  have hsome : (backends.find? (·.name == b.name)).isSome :=
    List.find?_isSome.mpr ⟨b, hb, beq_self_eq_true b.name⟩
  obtain ⟨c, hc⟩ := Option.isSome_iff_exists.mp hsome
  have hname : c.name = b.name := by
    simpa using List.find?_some hc
  rw [hc, List.inj_on_of_nodup_map hnames (List.mem_of_find?_eq_some hc) hb hname]

/-- The jobs of one file are those of a bundle. -/
theorem filter_done
    (path : List String) :
    (done s options backends).filter (·.key s == (b.name, path)) =
      (bundle s options b path).decls.map (Job.mk b) := by
  rw [done, jobs_eq, List.filter_filter, List.filter_flatMap,
    flatMap_of_key hnames hb _ fun c _ hne => ?_]
  · rw [List.filter_map, bundle]
    congr 1
    refine List.filter_congr fun d _ => ?_
    rw [Bool.eq_iff_iff]
    simp [writes, Job.key, Job.succeeds, Job.error?, and_comm]
  · rw [List.filter_eq_nil_iff]
    intro j hj
    obtain ⟨d, -, rfl⟩ := List.mem_map.mp hj
    simp [Job.key, hne]

theorem file?_bundle
    (placement : Placement)
    {path : List String}
    (hdecls : (bundle s options b path).decls ≠ []) :
    file? s placement (done s options backends) (b.name, path) =
      some ((bundle s options b path).file s placement) := by
  unfold file?
  rw [filter_done s options hnames hb path]
  obtain ⟨d, ds, hds⟩ := List.exists_cons_of_ne_nil hdecls
  rw [Bundle.file, hds]
  simp [Job.fragment, bundle, Function.comp_def]

end Distinct

section Bundled

variable (s : Schema)
variable (options : EmitOptions)

/-- The bundle of the file with a key. -/
def bundle?
    (backends : List Backend)
    (key : String × List String) :
    Option Bundle :=
  (backends.find? (·.name == key.1)).map (bundle s options · key.2)

/-- The bundles of all files. -/
def bundles
    (backends : List Backend) :
    List Bundle :=
  (keys s options backends).filterMap (bundle? s options backends)

variable {backends : List Backend}
variable (hnames : (backends.map (·.name)).Nodup)

include hnames

theorem mem_bundles
    (g : Bundle) :
    g ∈ bundles s options backends ↔
      ∃ b ∈ backends, ∃ d ∈ roots s options,
        b.error? s d = none ∧ g = bundle s options b (b.path s d) := by
  simp only [bundles, List.mem_filterMap, mem_keys]
  constructor
  · rintro ⟨key, ⟨b, hb, d, hd, hnone, rfl⟩, hg⟩
    rw [bundle?, find?_name hnames hb] at hg
    exact ⟨b, hb, d, hd, hnone, (Option.some.inj hg).symm⟩
  · rintro ⟨b, hb, d, hd, hnone, rfl⟩
    refine ⟨_, ⟨b, hb, d, hd, hnone, rfl⟩, ?_⟩
    rw [bundle?, find?_name hnames hb]
    rfl

/-- The files are those of the bundles. -/
theorem files_eq_bundles :
    (emit s backends options).files =
      (bundles s options backends).map (·.file s options.placement) := by
  rw [files_eq, bundles, List.map_filterMap]
  refine List.filterMap_congr fun key hkey => ?_
  obtain ⟨b, hb, d, hd, hnone, rfl⟩ := (mem_keys s options key).mp hkey
  rw [file?_bundle s options hnames hb _ (bundle_ne_nil s options hd hnone),
    bundle?, find?_name hnames hb]
  rfl

/-- The files of one backend are those that it writes alone. -/
theorem files_alone
    {b : Backend}
    (hb : b ∈ backends) :
    (emit s backends options).files.filter (·.backend == b.name) =
      (emit s [b] options).files := by
  have halone : ([b].map (·.name)).Nodup := List.nodup_singleton _
  have hkeys : (keys s options backends).filter (·.1 == b.name) = keys s options [b] := by
    refine filter_sortedKeys _ _ _ fun key => ?_
    rw [mem_done, mem_done]
    constructor
    · rintro ⟨c, hc, d, hd, hnone, rfl⟩
      obtain rfl := List.mem_singleton.mp hc
      exact ⟨⟨c, hb, d, hd, hnone, rfl⟩, beq_self_eq_true _⟩
    · rintro ⟨⟨c, hc, d, hd, hnone, rfl⟩, hname⟩
      obtain rfl := List.inj_on_of_nodup_map hnames hc hb (by simpa using hname)
      exact ⟨c, List.mem_singleton_self c, d, hd, hnone, rfl⟩
  rw [files_eq, files_eq, filter_files, hkeys]
  refine List.filterMap_congr fun key hkey => ?_
  obtain ⟨c, hc, d, hd, hnone, rfl⟩ := (mem_keys s options key).mp hkey
  obtain rfl := List.mem_singleton.mp hc
  have hdecls := bundle_ne_nil s options hd hnone
  rw [file?_bundle s options hnames hb _ hdecls, file?_bundle s options halone hc _ hdecls]

/-- The errors of one backend are those that it reports alone. -/
theorem errors_alone
    {b : Backend}
    (hb : b ∈ backends) :
    (emit s backends options).errors.filter (·.backend == b.name) =
      (emit s [b] options).errors := by
  have hbackend : ∀ c : Backend, ∀ e ∈ (roots s options).filterMap (c.error? s),
      e.backend = c.name := by
    intro c e he
    obtain ⟨d, -, hd⟩ := List.mem_filterMap.mp he
    obtain ⟨refusal, -, rfl⟩ := Option.map_eq_some_iff.mp hd
    rfl
  rw [errors_eq, errors_eq, List.filter_flatMap, flatMap_of_key hnames hb,
    List.flatMap_singleton]
  · rw [List.filter_eq_self]
    intro e he
    simpa using hbackend b e he
  · intro c _ hne
    rw [List.filter_eq_nil_iff]
    intro e he
    simpa [hbackend c e he] using hne

end Bundled

/-- Emission loses nothing and keeps backends apart.  Every file is that of a bundle, which holds
all that its backend writes to its path, in the order of the schema; a declaration that a backend
writes is in exactly one bundle of the backend, and one that it refuses gives one error, by backend
and declaration.  Files are strictly ordered by backend and path, and each backend has the files
and errors that it has alone. -/
theorem emit_accounts
    (s : Schema)
    (options : EmitOptions)
    {backends : List Backend}
    (hnames : (backends.map (·.name)).Nodup) :
    (∃ gs : List Bundle,
      (emit s backends options).files = gs.map (·.file s options.placement) ∧
        (∀ g ∈ gs, g.backend ∈ backends ∧ g.decls ≠ [] ∧
          g.decls = (roots s options).filter (writes s g.backend g.path)) ∧
        ∀ b ∈ backends, ∀ d ∈ roots s options, b.error? s d = none →
          ∃! g, g ∈ gs ∧ g.backend = b ∧ d ∈ g.decls) ∧
      (emit s backends options).errors =
        backends.flatMap (fun b => (roots s options).filterMap (b.error? s)) ∧
      (emit s backends options).files.Pairwise (fun f g =>
        toLex (f.backend, f.path) < toLex (g.backend, g.path)) ∧
      ∀ b ∈ backends,
        (emit s backends options).files.filter (·.backend == b.name) =
            (emit s [b] options).files ∧
          (emit s backends options).errors.filter (·.backend == b.name) =
            (emit s [b] options).errors := by
  refine ⟨⟨bundles s options backends, files_eq_bundles s options hnames, fun g hg => ?_,
    fun b hb d hd hnone => ?_⟩, errors_eq s options, pairwise_files s options,
    fun b hb => ⟨files_alone s options hnames hb, errors_alone s options hnames hb⟩⟩
  · obtain ⟨b, hb, d, hd, hnone, rfl⟩ := (mem_bundles s options hnames g).mp hg
    exact ⟨hb, bundle_ne_nil s options hd hnone, rfl⟩
  · refine ⟨bundle s options b (b.path s d), ⟨?_, rfl, ?_⟩, ?_⟩
    · exact (mem_bundles s options hnames _).mpr ⟨b, hb, d, hd, hnone, rfl⟩
    · exact List.mem_filter.mpr ⟨hd, by simp [writes, hnone]⟩
    · rintro g ⟨hg, rfl, hmem⟩
      obtain ⟨c, -, e, -, -, rfl⟩ := (mem_bundles s options hnames g).mp hg
      -- the declaration is in the bundle, so the path of the bundle is its own
      have hpath := (List.mem_filter.mp hmem).2
      simp only [writes, Bool.and_eq_true, beq_iff_eq] at hpath
      rw [bundle, hpath.2]
      rfl

end Emit

namespace Sample

/-- A package with a type, and with a service, which is refused by one of the targets. -/
def office : Schema :=
  ⟨[{ identity := ⟨⟨["office"]⟩, none⟩
      ns := ⟨["office"], none⟩
      doc := []
      decls :=
        [⟨⟨0, 0⟩, "Desk", [], none, [], .type [], default⟩,
          ⟨⟨0, 1⟩, "Api", [], none, [], .service [], default⟩]
      roots := [0, 1] }]⟩

/-- Everything is written. -/
def everything : EmitOptions :=
  { placement := .last, packages := [] }

/-- The refusal of the service. -/
def refusedApi : EmitError :=
  { backend := "js", decl := "office::Api", feature := "services", span := default }

end Sample

theorem Emit.emit_accounts_office :
    (Target.all.map (·.name)).Nodup ∧
      (emit Sample.office Target.all Sample.everything).errors = [Sample.refusedApi] ∧
      (emit Sample.office Target.all Sample.everything).files.filter (·.backend == "js") =
        (emit Sample.office [Target.javascript] Sample.everything).files := by
  have hnames : (Target.all.map (·.name)).Nodup := by
    decide
  obtain ⟨-, herrors, -, halone⟩ := emit_accounts Sample.office Sample.everything hnames
  refine ⟨hnames, ?_, (halone Target.javascript (by simp [Target.all])).1⟩
  rw [herrors]
  cbv

end Schemata
