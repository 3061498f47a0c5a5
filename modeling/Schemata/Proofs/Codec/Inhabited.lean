import Schemata.Proofs.Codec.Descent
import Schemata.Proofs.Lookup

/-!
# Which types and tuples have documents

Where all declarations are types and tuples, a declaration has a document
unless its needs lead to a cycle: otherwise the documents of what it needs are
found first, and one of its own is put together from them, with `null` for
optional fields and empty arrays and maps.

Needs go through direct references and through the items of inline tuples,
while warnings follow direct references only.  So a declaration without
documents leads to a cycle that a warning is about when inline tuples stay out
of the cycles, and need not lead to one when they do not.

**Results.** `hasDocument_of_acyclic`, `undecodable_iff`, `complete_iff`,
`undecodable_of_resolve`.
-/

namespace Schemata

/-- At every depth, each key of an object stands once. -/
inductive Json.DistinctKeys : Json → Prop
  | intro
      {j : Json}
      (hkeys : ∀ entries, j = .object entries → (entries.map Prod.fst).Nodup)
      (hinner : ∀ k ∈ j.inner, DistinctKeys k) :
      DistinctKeys j

/-- What every document promises: its numbers are standard, and each key of an object stands
once. -/
structure Json.Proper
    (j : Json) : Prop where
  standard : j.Standard
  keys : j.DistinctKeys

namespace Json

theorem distinctKeys_of_scalar
    {j : Json}
    (hinner : j.inner = [])
    (hobject : ∀ entries, j ≠ .object entries) :
    j.DistinctKeys :=
  .intro (fun entries heq => absurd heq (hobject entries)) (by simp [hinner])

theorem distinctKeys_object
    {entries : List (String × Json)}
    (hkeys : (entries.map Prod.fst).Nodup)
    (h : ∀ document ∈ entries.map Prod.snd, document.DistinctKeys) :
    (object entries).DistinctKeys := by
  refine .intro (fun entries' heq => ?_) h
  obtain rfl := Json.object.inj heq
  exact hkeys

/-- A document that holds no others, and is no number but zero, is proper. -/
theorem proper_of_scalar
    {j : Json}
    (hinner : j.inner = [])
    (hinteger : ∀ n, j = .integer n → n = 0)
    (hfloat : ∀ d, j ≠ .float d)
    (hobject : ∀ entries, j ≠ .object entries) :
    j.Proper := by
  refine ⟨.intro ?_ (fun d hd => absurd hd (hfloat d)) (by simp [hinner]),
    distinctKeys_of_scalar hinner hobject⟩
  intro n hn
  rw [hinteger n hn]
  omega

theorem proper_null :
    null.Proper :=
  proper_of_scalar rfl (by simp) (by simp) (by simp)

theorem proper_array
    {items : List Json}
    (h : ∀ item ∈ items, item.Proper) :
    (array items).Proper :=
  ⟨.intro (by simp) (by simp) fun item hitem => (h item hitem).standard,
    .intro (by simp) fun item hitem => (h item hitem).keys⟩

theorem proper_object
    {entries : List (String × Json)}
    (hkeys : (entries.map Prod.fst).Nodup)
    (h : ∀ document ∈ entries.map Prod.snd, document.Proper) :
    (object entries).Proper :=
  ⟨.intro (by simp) (by simp) fun d hd => (h d hd).standard,
    distinctKeys_object hkeys fun d hd => (h d hd).keys⟩

end Json

namespace Codec

/-- The document decodes as the type, wherever it stands, and is not null. -/
def Reads
    (s : Schema)
    (document : Json)
    (type : TypeRef) : Prop :=
  document ≠ .null ∧ ∀ path, ∃ v, (view s document).decode s type path = .ok v

/-- The type has a document. -/
def HasDocument
    (s : Schema)
    (type : TypeRef) : Prop :=
  ∃ document : Json, document.Proper ∧ Reads s document type

/-- No document decodes as the declaration. -/
def Undecodable
    (s : Schema)
    (id : DeclId) : Prop :=
  ∀ document : Json, document.Proper → ∃ e, decode s document (.decl id) = .error e

section Types

variable {s : Schema}

theorem reads_primitive
    {p : Primitive}
    {document : Json}
    (hnull : document ≠ .null)
    (h : ∀ path, ∃ v, decodePrimitive p document path = .ok v) :
    Reads s document (.primitive p) := by
  refine ⟨hnull, fun path => ?_⟩
  rw [View.decode, document_view]
  exact h path

theorem hasDocument_primitive
    (p : Primitive) :
    HasDocument s (.primitive p) := by
  cases p with
  | any | boolean =>
      exact ⟨.bool true, Json.proper_of_scalar rfl (by simp) (by simp) (by simp),
        reads_primitive (by simp) fun _ => ⟨_, rfl⟩⟩
  | string | datetime | bytes =>
      exact ⟨.string "", Json.proper_of_scalar rfl (by simp) (by simp) (by simp),
        reads_primitive (by simp) fun _ => ⟨_, rfl⟩⟩
  | float | double | u32 | u64 | i32 | i64 =>
      exact ⟨.integer 0, Json.proper_of_scalar rfl (by simp) (by simp) (by simp),
        reads_primitive (by simp) fun _ => ⟨_, rfl⟩⟩

theorem hasDocument_array
    (item : TypeRef) :
    HasDocument s (.array item) := by
  refine ⟨.array [], Json.proper_array (by simp), by simp, fun path => ⟨.array [], ?_⟩⟩
  rw [view, viewItems]
  rfl

theorem hasDocument_map
    (key value : TypeRef) :
    HasDocument s (.map key value) := by
  refine ⟨.object [], Json.proper_object (by simp) (by simp), by simp, fun path => ⟨.map [], ?_⟩⟩
  rw [view, viewEntries]
  rfl

theorem exists_decodeTuple_of_reads
    {types : List TypeRef}
    {document : TypeRef → Json}
    (h : ∀ type ∈ types, Reads s (document type) type)
    (path : DocumentPath)
    (index : Nat) :
    ∃ items, decodeTuple path index types ((types.map document).map (partOf s)) = .ok items := by
  induction types generalizing index with
  | nil =>
      exact ⟨[], rfl⟩
  | cons type types ih =>
      obtain ⟨v, hv⟩ := (h type List.mem_cons_self).2 (path ++ [PathStep.index index])
      obtain ⟨items, hitems⟩ := ih (fun t ht => h t (List.mem_cons_of_mem type ht)) (index + 1)
      refine ⟨v :: items, ?_⟩
      simp only [List.map_cons, decodeTuple, decoder_partOf, hv, hitems, ok_bind]
      rfl

/-- An inline tuple has a document when its items have. -/
theorem hasDocument_tuple
    {types : List TypeRef}
    (h : ∀ type ∈ types, HasDocument s type) :
    HasDocument s (.tuple types) := by
  have hnonempty : Nonempty Json := ⟨.null⟩
  choose! document hproper hreads using h
  refine ⟨.array (types.map document), Json.proper_array ?_, by simp, fun path => ?_⟩
  · intro item hitem
    obtain ⟨type, htype, rfl⟩ := List.mem_map.mp hitem
    exact hproper type htype
  · obtain ⟨items, hitems⟩ := exists_decodeTuple_of_reads hreads path 0
    refine ⟨.tuple items, ?_⟩
    simp only [view, View.decode, View.asArray, viewItems_eq_map, ok_bind, hitems]
    rfl

/-- A type has a document when the declarations that it forces have. -/
theorem hasDocument_of_forced
    {type : TypeRef}
    (h : ∀ t ∈ type.forced, HasDocument s (.decl t)) :
    HasDocument s type := by
  induction type using TypeRef.memberInduction with
  | primitive p =>
      exact hasDocument_primitive p
  | decl id =>
      exact h id (by simp [TypeRef.forced])
  | array item ih =>
      exact hasDocument_array item
  | map key value ihKey ihValue =>
      exact hasDocument_map key value
  | tuple items ih =>
      refine hasDocument_tuple fun item hitem => ih item hitem fun t ht => ?_
      exact h t ((TypeRef.mem_forced_tuple t items).mpr ⟨item, hitem, ht⟩)

end Types

section Records

variable {s : Schema}

/-- The document can stand for the field: null for an optional field, or a document of its type. -/
def Fills
    (s : Schema)
    (f : Field)
    (document : Json) : Prop :=
  document.Proper ∧ (f.optional = true ∧ document = .null ∨ Reads s document f.type)

theorem exists_fills
    {fields : List Field}
    (h : ∀ f ∈ fields, f.optional = false → HasDocument s f.type) :
    ∃ document : Field → Json, ∀ f ∈ fields, Fills s f (document f) := by
  have hnonempty : Nonempty Json := ⟨.null⟩
  have hfills : ∀ f ∈ fields, ∃ document, Fills s f document := by
    intro f hf
    cases hoptional : f.optional with
    | true =>
        exact ⟨.null, Json.proper_null, Or.inl ⟨hoptional, rfl⟩⟩
    | false =>
        obtain ⟨document, hproper, hreads⟩ := h f hf hoptional
        exact ⟨document, hproper, Or.inr hreads⟩
  choose! document hdocument using hfills
  exact ⟨document, hdocument⟩

theorem exists_decodePositions_of_fills
    {fields : List Field}
    {document : Field → Json}
    (h : ∀ f ∈ fields, Fills s f (document f))
    (path : DocumentPath)
    (index : Nat) :
    ∃ slots, decodePositions path index fields ((fields.map document).map (partOf s)) =
      .ok slots := by
  induction fields generalizing index with
  | nil =>
      exact ⟨[], rfl⟩
  | cons f fields ih =>
      obtain ⟨slots, hslots⟩ := ih (fun g hg => h g (List.mem_cons_of_mem f hg)) (index + 1)
      simp only [List.map_cons, decodePositions]
      rcases (h f List.mem_cons_self).2 with ⟨hoptional, hnull⟩ | ⟨hnull, hreads⟩
      · exact ⟨none :: slots, by simp only [hoptional, partOf, hnull, hslots, ok_bind]; rfl⟩
      · obtain ⟨v, hv⟩ := hreads (path ++ [PathStep.index index])
        split
        · rename_i heq
          exact absurd heq hnull
        · refine ⟨some v :: slots, ?_⟩
          simp only [decoder_partOf, hv, hslots, ok_bind]
          rfl

theorem exists_decodeFields_of_fills
    {entries : List (String × Json)}
    {fields : List Field}
    (h : ∀ f ∈ fields, ∃ document, entries.lookup f.jsonName = some document ∧ Fills s f document)
    (path : DocumentPath) :
    ∃ slots, decodeFields path (viewEntries s entries) fields = .ok slots := by
  induction fields with
  | nil =>
      exact ⟨[], rfl⟩
  | cons f fields ih =>
      obtain ⟨slots, hslots⟩ := ih fun g hg => h g (List.mem_cons_of_mem f hg)
      obtain ⟨document, hlookup, hfills⟩ := h f List.mem_cons_self
      rcases hfills.2 with ⟨hoptional, rfl⟩ | ⟨hnull, hreads⟩
      · have habsent : present? (viewEntries s entries) f.jsonName = none := by
          unfold present?
          rw [lookup_viewEntries, hlookup]
          rfl
        refine ⟨none :: slots, ?_⟩
        simp only [decodeFields, habsent, hoptional, if_true, hslots, ok_bind]
        rfl
      · obtain ⟨v, hv⟩ := hreads (path ++ [PathStep.key f.jsonName])
        refine ⟨some v :: slots, ?_⟩
        simp only [decodeFields, present?_of_lookup hlookup hnull, decoder_partOf, hv, hslots,
          ok_bind]
        rfl

/-- Under distinct keys, the document of each field stands under its key. -/
theorem lookup_map_jsonName
    {fields : List Field}
    (hnodup : (fields.map (·.jsonName)).Nodup)
    (document : Field → Json)
    {f : Field}
    (hf : f ∈ fields) :
    (fields.map fun g => (g.jsonName, document g)).lookup f.jsonName = some (document f) := by
  have hkeys : ((fields.map fun g => (g.jsonName, document g)).map Prod.fst).Nodup := by
    rwa [List.map_map]
  exact (lookup_eq_some_iff_mem hkeys).mpr (List.mem_map_of_mem hf)

/-- A type or tuple has a document when its required fields have. -/
theorem hasDocument_struct
    (hs : s.WellFormed)
    {d : DeclId}
    (hd : s.IsStruct d)
    (h : ∀ f ∈ (s.decl d).fields, f.optional = false → HasDocument s f.type) :
    HasDocument s (.decl d) := by
  obtain ⟨document, hfills⟩ := exists_fills h
  have hbodies := (hs.decl d).body
  rcases hd.body_eq with hbody | hbody
  · rw [hbody] at hbodies
    have hkeys := hbodies.jsonNames
    refine ⟨.object ((s.decl d).fields.map fun f => (f.jsonName, document f)),
      Json.proper_object ?_ ?_, by simp, fun path => ?_⟩
    · simpa [Function.comp_def] using hkeys
    · intro part hpart
      simp only [List.map_map, List.mem_map, Function.comp_apply] at hpart
      obtain ⟨f, hf, rfl⟩ := hpart
      exact (hfills f hf).1
    · obtain ⟨slots, hslots⟩ := exists_decodeFields_of_fills
        (fun f hf => ⟨document f, lookup_map_jsonName hkeys document hf, hfills f hf⟩) path
      refine ⟨.record d none slots, ?_⟩
      simp only [view, View.decode, View.decodeDecl, hbody, View.asObject, ok_bind, hslots]
      rfl
  · refine ⟨.array ((s.decl d).fields.map document), Json.proper_array ?_, by simp,
      fun path => ?_⟩
    · intro part hpart
      obtain ⟨f, hf, rfl⟩ := List.mem_map.mp hpart
      exact (hfills f hf).1
    · obtain ⟨slots, hslots⟩ := exists_decodePositions_of_fills hfills path 0
      refine ⟨.record d none slots, ?_⟩
      simp only [view, View.decode, View.decodeDecl, hbody, View.asArray, viewItems_eq_map,
        ok_bind, hslots]
      rfl

end Records

section Acyclic

variable {s : Schema}
variable (hnames : s.NamesExist)
variable (hstructs : ∀ id ∈ s.ids, s.IsStruct id)

include hnames hstructs

theorem forces_of_forced
    {d : DeclId}
    (hd : d ∈ s.ids)
    {f : Field}
    (hf : f ∈ (s.decl d).fields)
    (hrequired : f.optional = false)
    {t : DeclId}
    (ht : t ∈ f.type.forced) :
    s.Forces d t := by
  have hmem : t ∈ s.ids := hnames d hd f hf t (TypeRef.mem_mentioned_of_forced ht)
  exact ⟨hstructs d hd, hstructs t hmem, f, hf, hrequired, ht⟩

/-- A declaration has a document unless its needs lead to a cycle. -/
theorem hasDocument_of_acyclic
    (hs : s.WellFormed)
    {d : DeclId}
    (hd : d ∈ s.ids)
    (hacyclic : ∀ t, Relation.ReflTransGen s.Forces d t → ¬ Relation.TransGen s.Forces t t) :
    HasDocument s (.decl d) := by
  -- the measure is the number of needs: what is needed has fewer, so its documents come first
  induction hsize : (s.needs d).ncard using Nat.strongRecOn generalizing d with
  | ind size ih =>
      refine hasDocument_struct hs (hstructs d hd) fun f hf hrequired => ?_
      refine hasDocument_of_forced fun t ht => ?_
      have hforces := forces_of_forced hnames hstructs hd hf hrequired ht
      have hlt := hforces.ncard_needs_lt (hacyclic t (.single hforces))
      have hacyclic' : ∀ u, Relation.ReflTransGen s.Forces t u →
          ¬ Relation.TransGen s.Forces u u := fun u hu => hacyclic u (.head hforces hu)
      exact ih _ (hsize ▸ hlt) hforces.target.1 hacyclic' rfl

/-- A declaration has no document exactly when its needs lead to a cycle of needs. -/
theorem undecodable_iff
    (hs : s.WellFormed)
    {d : DeclId}
    (hd : d ∈ s.ids) :
    Undecodable s d ↔
      ∃ t, Relation.ReflTransGen s.Forces d t ∧ Relation.TransGen s.Forces t t := by
  constructor
  · intro hnone
    by_contra hcycle
    obtain ⟨document, hproper, -, hreads⟩ := hasDocument_of_acyclic hnames hstructs hs hd
      fun t hreach ht => hcycle ⟨t, hreach, ht⟩
    obtain ⟨v, hv⟩ := hreads []
    obtain ⟨e, he⟩ := hnone document hproper
    rw [decode, hv] at he
    cases he
  · rintro ⟨t, hreach, hcycle⟩ document -
    exact exists_error_of_not_accepts (not_accepts_of_reach hreach hcycle document)

end Acyclic

section Complete

/-- Every declaration without documents leads to a cycle that a warning is about. -/
def Complete
    (s : Schema)
    (warnings : List RequiredCycle) : Prop :=
  ∀ id ∈ s.ids, Undecodable s id →
    ∃ w ∈ warnings, ∃ c, Cycle.Warns s w c ∧ ∃ t ∈ c, Relation.ReflTransGen s.Forces id t

variable {s : Schema}

/-- Where inline tuples stay out of the cycles, every cycle is one of direct references. -/
theorem directCycles_of_tuplesOffCycles
    (h : s.TuplesOffCycles) :
    s.DirectCycles := by
  have hdirect : ∀ a b, Relation.TransGen s.Forces a b → Relation.ReflTransGen s.Forces b a →
      Relation.TransGen s.Requires a b := by
    intro a b hab
    induction hab with
    | single hedge =>
        intro hback
        exact .single (h _ _ hedge hback)
    | @tail b c hab hedge ih =>
        intro hback
        have hfirst := ih (.head hedge hback)
        exact hfirst.tail (h b c hedge (hback.trans hab.to_reflTransGen))
  intro t ht
  exact ⟨t, .refl, hdirect t t ht .refl⟩

variable (hnames : s.NamesExist)
variable (hstructs : ∀ id ∈ s.ids, s.IsStruct id)

include hnames hstructs

/-- The warnings are complete exactly when every cycle of needs leads to one of direct
references. -/
theorem complete_iff
    (hs : s.WellFormed) :
    Complete s (Cycle.warnings s) ↔ s.DirectCycles := by
  have hexact := Cycle.exact_of_namesExist hnames
  constructor
  · intro hcomplete t ht
    obtain ⟨u, hedge, -⟩ := Relation.TransGen.head'_iff.mp ht
    have hmem : t ∈ s.ids := hedge.source.1
    have hnone := (undecodable_iff hnames hstructs hs hmem).mpr ⟨t, .refl, ht⟩
    obtain ⟨w, -, c, hwarns, v, hv, hreach⟩ := hcomplete t hmem hnone
    exact ⟨v, hreach, hwarns.1.transGen_self hv⟩
  · intro hdirect id hid hnone
    obtain ⟨t, hreach, ht⟩ := (undecodable_iff hnames hstructs hs hid).mp hnone
    obtain ⟨u, hfurther, hu⟩ := hdirect t ht
    obtain ⟨c, hcycle, hmem⟩ := Cycle.exists_isCycle_of_transGen hu
    obtain ⟨w, hw, hwarns⟩ := hexact.exists_warning hcycle
    exact ⟨w, hw, c, hwarns, u, hmem, hreach.trans hfurther⟩

/-- Where the warnings are complete and there is none, every declaration has a document. -/
theorem Complete.hasDocument
    (hs : s.WellFormed)
    (hcomplete : Complete s [])
    {id : DeclId}
    (hid : id ∈ s.ids) :
    HasDocument s (.decl id) := by
  refine hasDocument_of_acyclic hnames hstructs hs hid fun t hreach ht => ?_
  have hnone := (undecodable_iff hnames hstructs hs hid).mpr ⟨t, hreach, ht⟩
  obtain ⟨w, hw, -⟩ := hcomplete id hid hnone
  cases hw

end Complete

end Codec

/-- Where all declarations are types and tuples, those without documents are the ones whose needs
lead to a cycle of needs.  Each of them leads to a cycle that a warning is about exactly when every
cycle of needs leads to one of direct references, and then a schema without warnings has a document
for each declaration. -/
theorem undecodable_of_resolve
    {options : ResolveOptions}
    {files : List SourceFile}
    {r : Resolved}
    (h : resolve options files = .ok r)
    (hstructs : ∀ id ∈ r.schema.ids, r.schema.IsStruct id) :
    (∀ id ∈ r.schema.ids, Codec.Undecodable r.schema id ↔
        ∃ t, Relation.ReflTransGen r.schema.Forces id t ∧
          Relation.TransGen r.schema.Forces t t) ∧
      (Codec.Complete r.schema r.warnings ↔ r.schema.DirectCycles) ∧
      (r.schema.DirectCycles → r.warnings = [] → ∀ id ∈ r.schema.ids,
        ∃ document : Json, document.Proper ∧
          ∃ v, Codec.decode r.schema document (.decl id) = .ok v) := by
  have hresolved := Resolve.resolvedFrom_of_resolve h
  have hs := hresolved.wellFormed
  have hnames := namesExist_of_resolvedFrom hresolved
  have hcomplete := Codec.complete_iff hnames hstructs hs
  rw [← warnings_of_resolve h] at hcomplete
  refine ⟨fun id hid => Codec.undecodable_iff hnames hstructs hs hid, hcomplete, ?_⟩
  intro hdirect hwarnings id hid
  rw [hwarnings] at hcomplete
  obtain ⟨document, hproper, -, hdecode⟩ :=
    (hcomplete.mpr hdirect).hasDocument hnames hstructs hs hid
  exact ⟨document, hproper, hdecode []⟩

namespace Sample

/-- A file with a page that refers to a place in an inline tuple and to another page in an optional
field. -/
def pages : SourceFile :=
  { file := 0
    identity := ⟨⟨["pages"]⟩, none⟩
    tree :=
      { doc := []
        imports := []
        decls :=
          [declAt 0 "Page" (.type
              [field "at" false (.tuple [.name ⟨none, ["Place"], default⟩, .primitive .u32]),
                field "next" true (.name ⟨none, ["Page"], default⟩)]),
            declAt 20 "Place" (.tuple [field "x" false (.primitive .double)])] } }

/-- The schema that the file with pages resolves to. -/
def pageSchema : Schema :=
  ⟨[{ identity := ⟨⟨["pages"]⟩, none⟩
      ns := ⟨["pages"], none⟩
      doc := []
      decls :=
        [⟨⟨0, 0⟩, "Page", [], none, [],
            .type [required "at" (.tuple [.decl ⟨0, 1⟩, .primitive .u32]),
              ⟨"next", "next", .decl ⟨0, 0⟩, true, [], default⟩], ⟨0, 0, 10⟩⟩,
          ⟨⟨0, 1⟩, "Place", [], none, [], .tuple [required "x" (.primitive .double)],
            ⟨0, 20, 30⟩⟩]
      roots := [0, 1] }]⟩

theorem resolve_pages :
    resolve options [pages] = .ok ⟨pageSchema, []⟩ := by
  with_unfolding_all rfl

theorem isStruct_pages :
    ∀ id ∈ pageSchema.ids, pageSchema.IsStruct id := by
  simp only [Schema.isStruct_iff]
  decide

/-- A page needs a place, and a place needs nothing. -/
theorem eq_of_forces_pages
    {d t : DeclId}
    (h : pageSchema.Forces d t) :
    d = ⟨0, 0⟩ ∧ t = ⟨0, 1⟩ := by
  obtain ⟨⟨hd, -⟩, -, f, hf, hrequired, ht⟩ := h
  have hids : pageSchema.ids = [⟨0, 0⟩, ⟨0, 1⟩] := by
    decide
  rw [hids] at hd
  rcases List.mem_pair.mp hd with rfl | rfl
  · rcases List.mem_pair.mp hf with rfl | rfl
    · exact ⟨rfl, by simpa [required, TypeRef.forced, TypeRef.forcedAll] using ht⟩
    · cases hrequired
  · rw [List.mem_singleton.mp hf] at ht
    cases ht

theorem tuplesOffCycles_pages :
    pageSchema.TuplesOffCycles := by
  intro d t hforces hback
  obtain ⟨rfl, rfl⟩ := eq_of_forces_pages hforces
  rcases Relation.ReflTransGen.cases_head hback with heq | ⟨u, hedge, -⟩
  · cases heq
  · cases (eq_of_forces_pages hedge).1

/-- A file with a type that needs itself inside an inline tuple. -/
def pairs : SourceFile :=
  { file := 0
    identity := ⟨⟨["foo"]⟩, none⟩
    tree :=
      { doc := []
        imports := []
        decls :=
          [declAt 0 "A" (.type
            [field "x" false (.tuple [.name ⟨none, ["A"], default⟩, .primitive .u32])])] } }

/-- The schema that the file with the inline tuple resolves to. -/
def pairSchema : Schema :=
  ⟨[{ identity := ⟨⟨["foo"]⟩, none⟩
      ns := ⟨["foo"], none⟩
      doc := []
      decls :=
        [⟨⟨0, 0⟩, "A", [], none, [],
          .type [required "x" (.tuple [.decl ⟨0, 0⟩, .primitive .u32])], ⟨0, 0, 10⟩⟩]
      roots := [0] }]⟩

theorem resolve_pairs :
    resolve options [pairs] = .ok ⟨pairSchema, []⟩ := by
  with_unfolding_all rfl

theorem isStruct_pairs :
    ∀ id ∈ pairSchema.ids, pairSchema.IsStruct id := by
  simp only [Schema.isStruct_iff]
  decide

theorem forces_pairs :
    pairSchema.Forces ⟨0, 0⟩ ⟨0, 0⟩ := by
  have hid : pairSchema.IsStruct ⟨0, 0⟩ := isStruct_pairs ⟨0, 0⟩ (by decide)
  exact ⟨hid, hid, _, List.mem_cons_self, rfl, by decide⟩

end Sample

theorem undecodable_of_resolve_pages :
    Sample.pageSchema.DirectCycles ∧
      ∀ id ∈ Sample.pageSchema.ids, ∃ document : Json, document.Proper ∧
        ∃ v, Codec.decode Sample.pageSchema document (.decl id) = .ok v := by
  have hdirect := Codec.directCycles_of_tuplesOffCycles Sample.tuplesOffCycles_pages
  obtain ⟨-, -, hdecodes⟩ := undecodable_of_resolve Sample.resolve_pages Sample.isStruct_pages
  exact ⟨hdirect, hdecodes hdirect rfl⟩

/-- A type that needs itself inside an inline tuple has no documents, and there is no warning. -/
theorem exists_undecodable_without_warning :
    resolve Sample.options [Sample.pairs] = .ok ⟨Sample.pairSchema, []⟩ ∧
      (∀ id ∈ Sample.pairSchema.ids, Sample.pairSchema.IsStruct id) ∧
      (∀ document, ∃ e, Codec.decode Sample.pairSchema document (.decl ⟨0, 0⟩) = .error e) ∧
      ¬ Codec.Complete Sample.pairSchema [] := by
  have hnone : ∀ document,
      ∃ e, Codec.decode Sample.pairSchema document (.decl ⟨0, 0⟩) = .error e := fun document =>
    Codec.exists_error_of_not_accepts
      (Codec.not_accepts_of_transGen_self (.single Sample.forces_pairs) document)
  refine ⟨Sample.resolve_pairs, Sample.isStruct_pairs, hnone, ?_⟩
  intro hcomplete
  obtain ⟨w, hw, -⟩ := hcomplete ⟨0, 0⟩ (by decide) fun document _ => hnone document
  cases hw

end Schemata
