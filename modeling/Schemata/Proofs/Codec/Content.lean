import Schemata.Proofs.Codec.Presence
import Schemata.Proofs.Lookup
import Schemata.Proofs.Resolve.WellFormed
import Mathlib.Logic.Relation

/-!
# Decoding depends on declared content only

Documents carry more than a schema declares: objects have their keys in some
order, may have keys that no field has, and may spell out `null` for a key that
is absent; arrays may go on after the last item that is read.  `Differs` is one
such difference, at any depth of two documents that are read as one type.  The
type decides what counts: the keys of a map and the whole of a document of type
`any` are content.

A difference does not change what is present under a declared key.  So it
changes neither the case of an interface that a document shows nor what any
field is read from, and both documents decode to the same value, or to the same
error at the same place.

**Results.** `decode_eq_of_differs`, `decode_eq_of_content`.
-/

namespace Schemata

section Declared

/-- The tag of a strategy, if it has one. -/
def Strategy.tags : Strategy → List String
  | .tagged tag => [tag]
  | .untagged => []

namespace DeclBody

/-- The declaration is read from objects whose keys are its own: a type or an interface. -/
def IsKeyed : DeclBody → Prop
  | type _ | interface _ => True
  | tuple _ | enum _ _ | service _ => False

/-- The keys that mean something in an object: the tag and the keys of the fields, those of all
cases included. -/
def declaredKeys : DeclBody → List String
  | interface body =>
      body.strategy.tags ++ (body.fields ++ body.subTypes.flatMap (·.fields)).map (·.jsonName)
  | body => body.fields.map (·.jsonName)

end DeclBody

namespace InterfaceBody

/-- The object has every key that a case requires, and none of them is null. -/
def HasRequired
    (body : InterfaceBody)
    (entries : List (String × Json))
    (c : SubType) : Prop :=
  ∀ f ∈ body.fieldsOf c, f.optional = false →
    ∃ document, entries.lookup f.jsonName = some document ∧ document ≠ .null

/-- The object is read as a case: the one whose literal stands under the tag or, without a tag, the
first one whose required keys it has. -/
def Shows
    (body : InterfaceBody)
    (entries : List (String × Json))
    (c : SubType) : Prop :=
  match body.strategy with
  | .tagged tag => c ∈ body.subTypes ∧ entries.lookup tag = some (.string c.literal)
  | .untagged =>
      ∃ before after, body.subTypes = before ++ c :: after ∧
        body.HasRequired entries c ∧ ∀ earlier ∈ before, ¬ body.HasRequired entries earlier

theorem Shows.mem
    {body : InterfaceBody}
    {entries : List (String × Json)}
    {c : SubType}
    (h : body.Shows entries c) :
    c ∈ body.subTypes := by
  unfold Shows at h
  split at h
  · exact h.1
  · obtain ⟨before, after, hcases, -⟩ := h
    simp [hcases]

end InterfaceBody

end Declared

namespace Codec

/-- One difference between two documents that the type they are read as does not declare. -/
inductive Differs (s : Schema) : TypeRef → Json → Json → Prop where
  /-- The order of the keys of an object. -/
  | order
      {id : DeclId}
      {entries entries' : List (String × Json)}
      (hkeyed : (s.decl id).body.IsKeyed)
      (hdistinct : (entries.map Prod.fst).Nodup)
      (hperm : entries.Perm entries') :
      Differs s (.decl id) (.object entries) (.object entries')
  /-- A key that is neither the tag nor the key of a field. -/
  | undeclared
      {id : DeclId}
      {before after : List (String × Json)}
      {key : String}
      {document : Json}
      (hkeyed : (s.decl id).body.IsKeyed)
      (hkey : key ∉ (s.decl id).body.declaredKeys) :
      Differs s (.decl id) (.object (before ++ after))
        (.object (before ++ (key, document) :: after))
  /-- A declared key that is absent in one object and null in the other. -/
  | null
      {id : DeclId}
      {before after : List (String × Json)}
      {key : String}
      (hkeyed : (s.decl id).body.IsKeyed)
      (hkey : key ∈ (s.decl id).body.declaredKeys)
      (habsent : key ∉ (before ++ after).map Prod.fst) :
      Differs s (.decl id) (.object (before ++ after))
        (.object (before ++ (key, .null) :: after))
  /-- Items after the last field of a tuple. -/
  | furtherFields
      {id : DeclId}
      {fields : List Field}
      {items more : List Json}
      (hbody : (s.decl id).body = .tuple fields)
      (hlength : fields.length ≤ items.length) :
      Differs s (.decl id) (.array items) (.array (items ++ more))
  /-- Items after the last one of a tuple that is written in place. -/
  | furtherItems
      {types : List TypeRef}
      {items more : List Json}
      (hlength : types.length ≤ items.length) :
      Differs s (.tuple types) (.array items) (.array (items ++ more))
  /-- A difference inside a field of a type. -/
  | inField
      {id : DeclId}
      {fields : List Field}
      {f : Field}
      {before after : List (String × Json)}
      {document document' : Json}
      (hbody : (s.decl id).body = .type fields)
      (hf : f ∈ fields)
      (hinside : Differs s f.type document document') :
      Differs s (.decl id) (.object (before ++ (f.jsonName, document) :: after))
        (.object (before ++ (f.jsonName, document') :: after))
  /-- A difference inside a field of the case that an object is read as. -/
  | inCase
      {id : DeclId}
      {body : InterfaceBody}
      {c : SubType}
      {f : Field}
      {before after : List (String × Json)}
      {document document' : Json}
      (hbody : (s.decl id).body = .interface body)
      (hshows : body.Shows (before ++ (f.jsonName, document) :: after) c)
      (hf : f ∈ body.fieldsOf c)
      (hinside : Differs s f.type document document') :
      Differs s (.decl id) (.object (before ++ (f.jsonName, document) :: after))
        (.object (before ++ (f.jsonName, document') :: after))
  /-- A difference inside the item of a field of a tuple. -/
  | inPosition
      {id : DeclId}
      {fields : List Field}
      {f : Field}
      {before after : List Json}
      {document document' : Json}
      (hbody : (s.decl id).body = .tuple fields)
      (hf : fields[before.length]? = some f)
      (hinside : Differs s f.type document document') :
      Differs s (.decl id) (.array (before ++ document :: after))
        (.array (before ++ document' :: after))
  /-- A difference inside an item of a tuple that is written in place. -/
  | inTuple
      {types : List TypeRef}
      {type : TypeRef}
      {before after : List Json}
      {document document' : Json}
      (htype : types[before.length]? = some type)
      (hinside : Differs s type document document') :
      Differs s (.tuple types) (.array (before ++ document :: after))
        (.array (before ++ document' :: after))
  /-- A difference inside an item of an array. -/
  | inItem
      {type : TypeRef}
      {before after : List Json}
      {document document' : Json}
      (hinside : Differs s type document document') :
      Differs s (.array type) (.array (before ++ document :: after))
        (.array (before ++ document' :: after))
  /-- A difference inside the value of an entry of a map. -/
  | inEntry
      {key value : TypeRef}
      {name : String}
      {before after : List (String × Json)}
      {document document' : Json}
      (hinside : Differs s value document document') :
      Differs s (.map key value) (.object (before ++ (name, document) :: after))
        (.object (before ++ (name, document') :: after))

section Keyed

variable {s : Schema}

theorem hasRequired_iff
    {body : InterfaceBody}
    {entries : List (String × Json)}
    {c : SubType} :
    hasRequired body (viewEntries s entries) c = true ↔ body.HasRequired entries c := by
  simp only [hasRequired, InterfaceBody.HasRequired, List.all_eq_true, List.mem_filter,
    Field.isRequired, Bool.not_eq_true', and_imp, isSome_present?_iff]

/-- The case that an object shows is the one that it is read as. -/
theorem getElem?_of_shows
    {body : InterfaceBody}
    {nested : List String}
    (hwell : body.WellFormed nested)
    {entries : List (String × Json)}
    {c : SubType}
    (hshows : body.Shows entries c)
    {index : Nat}
    (hreads : ReadsCase body (viewEntries s entries) index) :
    body.subTypes[index]? = some c := by
  unfold InterfaceBody.Shows at hshows
  unfold ReadsCase at hreads
  cases hstrategy : body.strategy with
  | tagged tag =>
      rw [hstrategy] at hshows hreads
      obtain ⟨hmem, hlookup⟩ := hshows
      obtain ⟨path, hreads⟩ := hreads
      obtain ⟨i, hi⟩ := List.mem_iff_getElem?.mp hmem
      rw [taggedCase_of_lookup hi hwell.literals hlookup path] at hreads
      rw [← Except.ok.inj hreads]
      exact hi
  | untagged =>
      rw [hstrategy] at hshows hreads
      obtain ⟨before, after, hcases, hhas, hearlier⟩ := hshows
      have hc : body.subTypes[before.length]? = some c := by
        simp [hcases]
      have hfirst : untaggedCase? body (viewEntries s entries) = some before.length := by
        refine findIdx?_eq_some_of_first hc (hasRequired_iff.mpr hhas) fun j d hj hd => ?_
        rw [hcases, List.getElem?_append_left hj] at hd
        rw [← Bool.not_eq_true, hasRequired_iff]
        exact hearlier d (List.mem_of_getElem? hd)
      rw [hfirst] at hreads
      rw [← Option.some.inj hreads]
      exact hc

/-- A declaration with keys of its own is read from what is present under them. -/
theorem decode_keyed_congr
    {id : DeclId}
    (hkeyed : (s.decl id).body.IsKeyed)
    {entries entries' : List (String × Json)}
    (h : ∀ key ∈ (s.decl id).body.declaredKeys,
      present? (viewEntries s entries) key = present? (viewEntries s entries') key)
    (path : DocumentPath) :
    (view s (.object entries)).decode s (.decl id) path =
      (view s (.object entries')).decode s (.decl id) path := by
  cases hbody : (s.decl id).body with
  | type fields =>
      rw [hbody] at h
      have hfields :
          decodeFields path (viewEntries s entries) fields =
            decodeFields path (viewEntries s entries') fields := by
        refine decodeFields_congr (fun f hf => ?_) path
        rw [h f.jsonName (List.mem_map_of_mem hf)]
        exact alike_refl f.type _
      simp only [view, View.decode, View.decodeDecl, hbody, View.asObject, ok_bind, hfields]
  | interface body =>
      rw [hbody] at h
      have hcases : ∀ c ∈ body.subTypes, ∀ f ∈ body.fieldsOf c,
          present? (viewEntries s entries) f.jsonName =
            present? (viewEntries s entries') f.jsonName := by
        intro c hc f hf
        obtain ⟨index, hindex⟩ := List.mem_iff_getElem?.mp hc
        exact h f.jsonName (List.mem_append_right _
          (List.mem_map_of_mem (InterfaceBody.mem_fields_of_mem_fieldsOf hindex hf)))
      refine decode_interface_congr hbody ?_ ?_ ?_ path
      · intro tag htag
        refine h tag (List.mem_append_left _ ?_)
        simp [htag, Strategy.tags]
      · intro c hc f hf
        rw [hcases c hc f hf]
      · intro index c _ hc f hf
        rw [hcases c (List.mem_of_getElem? hc) f hf]
        exact alike_refl f.type _
  | tuple fields | enum type members | service endpoints =>
      rw [hbody] at hkeyed
      exact hkeyed.elim

end Keyed

/-- Documents that differ are objects or arrays. -/
theorem Differs.ne_null
    {s : Schema}
    {type : TypeRef}
    {document document' : Json}
    (h : Differs s type document document') :
    document ≠ .null ∧ document' ≠ .null := by
  cases h <;> simp

/-- A difference in what the type does not declare leaves the result unchanged, wherever the
document stands. -/
theorem decode_eq_of_differs
    {s : Schema}
    (hs : s.WellFormed)
    {type : TypeRef}
    {document document' : Json}
    (h : Differs s type document document') :
    ∀ path, (view s document).decode s type path = (view s document').decode s type path := by
  induction h with
  | order hkeyed hdistinct hperm =>
      refine decode_keyed_congr hkeyed fun key _ => ?_
      exact present?_congr (lookup_eq_of_perm hperm hdistinct key)
  | undeclared hkeyed hkey =>
      refine decode_keyed_congr hkeyed fun key hdeclared => present?_congr ?_
      rw [lookup_append_cons_of_ne]
      rintro rfl
      exact hkey hdeclared
  | @null id before after key hkeyed hkey habsent =>
      refine decode_keyed_congr hkeyed fun name _ => ?_
      by_cases hname : name = key
      · -- Absent in the one object, null in the other: present in neither.
        subst hname
        have hnone : (before ++ after).lookup name = none :=
          (lookup_eq_none_iff_notMem _ _).mpr habsent
        have hbefore : before.lookup name = none := by
          rw [List.lookup_append] at hnone
          exact (Option.or_eq_none_iff.mp hnone).1
        rw [present?_of_lookup_none hnone]
        unfold present?
        rw [lookup_viewEntries, lookup_append_cons_self, hbefore]
        rfl
      · refine present?_congr ?_
        rw [lookup_append_cons_of_ne hname]
  | furtherFields hbody hlength =>
      intro path
      simp only [view, View.decode, View.decodeDecl, hbody, View.asArray, ok_bind,
        viewItems_eq_map, List.map_append]
      rw [decodePositions_append (by simpa using hlength)]
  | furtherItems hlength =>
      intro path
      simp only [view, View.decode, View.asArray, ok_bind, viewItems_eq_map, List.map_append]
      rw [decodeTuple_append (by simpa using hlength)]
  | @inField id fields f before after document document' hbody hf hinside ih =>
      intro path
      have hwell := (hs.decl id).body
      rw [hbody] at hwell
      obtain ⟨hdocument, hdocument'⟩ := hinside.ne_null
      simp only [view, View.decode, View.decodeDecl, hbody, View.asObject, ok_bind]
      rw [decodeFields_congr fun g hg =>
        alike_of_exchange hwell.jsonNames hf hg hdocument hdocument' ih]
  | @inCase id body c f before after document document' hbody hshows hf hinside ih =>
      have hwell := (hs.decl id).body
      rw [hbody] at hwell
      obtain ⟨hdocument, hdocument'⟩ := hinside.ne_null
      refine decode_interface_congr hbody ?_ ?_ ?_
      · intro tag htag
        obtain ⟨index, hindex⟩ := List.mem_iff_getElem?.mp hshows.mem
        have hne := hwell.tag tag htag f (InterfaceBody.mem_fields_of_mem_fieldsOf hindex hf)
        exact present?_exchange_of_ne hne.symm
      · intro d hd g hg
        exact isSome_present?_exchange hdocument hdocument' ih g.jsonName
      · intro index d hreads hd g hg
        have hc := getElem?_of_shows hwell hshows hreads
        obtain rfl : d = c := Option.some.inj (hd.symm.trans hc)
        exact alike_of_exchange (hwell.cases d (List.mem_of_getElem? hd)).jsonNames hf hg
          hdocument hdocument' ih
  | inPosition hbody hf hinside ih =>
      intro path
      obtain ⟨hdocument, hdocument'⟩ := hinside.ne_null
      simp only [view, View.decode, View.decodeDecl, hbody, View.asArray, ok_bind]
      rw [decodePositions_exchange hf hdocument hdocument' ih]
  | inTuple htype hinside ih =>
      intro path
      simp only [view, View.decode, View.asArray, ok_bind]
      rw [decodeTuple_exchange htype ih]
  | inItem hinside ih =>
      intro path
      simp only [view, View.decode, View.asArray, ok_bind]
      rw [decodeItems_exchange ih]
  | inEntry hinside ih =>
      intro path
      simp only [view, View.decode, View.asObject, ok_bind]
      rw [decodeEntries_exchange ih]

end Codec

/-- Documents that differ only in what the type does not declare, however often and at whatever
depth, decode to the same value, or to the same error at the same place. -/
theorem decode_eq_of_content
    {options : ResolveOptions}
    {files : List SourceFile}
    {r : Resolved}
    (h : resolve options files = .ok r)
    {type : TypeRef}
    {document document' : Json}
    (hcontent : Relation.EqvGen (Codec.Differs r.schema type) document document') :
    Codec.decode r.schema document type = Codec.decode r.schema document' type := by
  have hs := (Resolve.resolvedFrom_of_resolve h).wellFormed
  induction hcontent with
  | rel document document' hdiffers =>
      exact Codec.decode_eq_of_differs hs hdiffers []
  | refl document =>
      rfl
  | symm document document' _ ih =>
      exact ih.symm
  | trans document middle document' _ _ ih ih' =>
      exact ih.trans ih'

namespace Sample

/-- A line from a point. -/
def lineDocument : Json :=
  .object [("ends", .array [.object [("x", .integer 1)]])]

/-- The same line with more keys, in another order. -/
def annotatedLine : Json :=
  .object [("marks", .null), ("note", .bool true),
    ("ends", .array [.object [("x", .integer 1), ("unit", .null)]])]

/-- The field of a line that holds its ends. -/
def endsField : Field :=
  ⟨"ends", "ends", .array (.decl ⟨0, 0⟩), false, [], default⟩

/-- The case of lines. -/
def lineCase : SubType :=
  ⟨"Line", "Line", [], lineFields, default⟩

theorem shows_line
    {document : Json}
    (hnull : document ≠ .null) :
    shapeBody.Shows [("ends", document)] lineCase := by
  refine ⟨[⟨"Point", "Point", [], pointFields, default⟩], [], rfl, ?_, ?_⟩
  · intro f hf hrequired
    rcases List.mem_pair.mp hf with rfl | rfl
    · exact ⟨document, rfl, hnull⟩
    · cases hrequired
  · intro c hc hhas
    obtain rfl := List.mem_singleton.mp hc
    obtain ⟨found, hfound, -⟩ := hhas ⟨"x", "x", .primitive .u32, false, [], default⟩
      List.mem_cons_self rfl
    cases hfound

theorem content_line :
    Relation.EqvGen (Codec.Differs schema (.decl ⟨0, 0⟩)) lineDocument annotatedLine := by
  have hpoint : Codec.Differs schema (.decl ⟨0, 0⟩) (.object [("x", .integer 1)])
      (.object [("x", .integer 1), ("unit", .null)]) :=
    @Codec.Differs.null schema ⟨0, 0⟩ [("x", .integer 1)] [] "unit" trivial (by decide) (by decide)
  have hinside : Codec.Differs schema (.decl ⟨0, 0⟩) lineDocument
      (.object [("ends", .array [.object [("x", .integer 1), ("unit", .null)]])]) :=
    @Codec.Differs.inCase schema ⟨0, 0⟩ shapeBody lineCase endsField [] [] _ _ rfl (shows_line (by simp))
      List.mem_cons_self (@Codec.Differs.inItem schema _ [] [] _ _ hpoint)
  have hundeclared : Codec.Differs schema (.decl ⟨0, 0⟩)
      (.object [("ends", .array [.object [("x", .integer 1), ("unit", .null)]])])
      (.object [("note", .bool true),
        ("ends", .array [.object [("x", .integer 1), ("unit", .null)]])]) :=
    @Codec.Differs.undeclared schema ⟨0, 0⟩ [] _ "note" _ trivial (by decide)
  have hnull : Codec.Differs schema (.decl ⟨0, 0⟩)
      (.object [("note", .bool true),
        ("ends", .array [.object [("x", .integer 1), ("unit", .null)]])])
      (.object [("note", .bool true), ("marks", .null),
        ("ends", .array [.object [("x", .integer 1), ("unit", .null)]])]) :=
    @Codec.Differs.null schema ⟨0, 0⟩ [("note", .bool true)] _ "marks" trivial (by decide)
      (by decide)
  have horder : Codec.Differs schema (.decl ⟨0, 0⟩)
      (.object [("note", .bool true), ("marks", .null),
        ("ends", .array [.object [("x", .integer 1), ("unit", .null)]])])
      annotatedLine :=
    .order trivial (by decide) (List.Perm.swap _ _ _)
  exact .trans _ _ _ (.rel _ _ hinside) (.trans _ _ _ (.rel _ _ hundeclared)
    (.trans _ _ _ (.rel _ _ hnull) (.rel _ _ horder)))

end Sample

theorem decode_eq_of_content_line :
    Relation.EqvGen (Codec.Differs Sample.schema (.decl ⟨0, 0⟩)) Sample.lineDocument
        Sample.annotatedLine ∧
      Codec.decode Sample.schema Sample.lineDocument (.decl ⟨0, 0⟩) =
        Codec.decode Sample.schema Sample.annotatedLine (.decl ⟨0, 0⟩) :=
  ⟨Sample.content_line, decode_eq_of_content Sample.resolve_shapes Sample.content_line⟩

end Schemata
