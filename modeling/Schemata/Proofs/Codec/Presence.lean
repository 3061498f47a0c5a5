import Schemata.Proofs.Codec.Dispatch

/-!
# What decoding looks at

A declaration is read from an object by looking up keys, and what is null counts
as absent.  This module says so for each loop of the decoder: its result stays
the same when what is present under each of its keys decodes alike, when an item
or an entry is exchanged for one that decodes alike, and when an array goes on
after the last item that is read.

**Results.** `decodeFields_congr`, `decode_interface_congr`, and one `exchange`
lemma for each loop.
-/

namespace Schemata
namespace Codec

section Lookup

variable {β : Type}

theorem lookup_append_cons_of_ne
    {before after : List (String × β)}
    {key name : String}
    {b : β}
    (hne : key ≠ name) :
    (before ++ (name, b) :: after).lookup key = (before ++ after).lookup key := by
  have hbeq : (key == name) = false := beq_eq_false_iff_ne.mpr hne
  simp [List.lookup_append, List.lookup_cons, hbeq]

/-- The entry that is found under a key in the middle is an earlier one, or the one there. -/
theorem lookup_append_cons_self
    (before after : List (String × β))
    (key : String)
    (b : β) :
    (before ++ (key, b) :: after).lookup key = some ((before.lookup key).getD b) := by
  rw [List.lookup_append, List.lookup_cons_self]
  cases before.lookup key with
  | none =>
      rfl
  | some found =>
      rfl

end Lookup

section Presence

variable {s : Schema}

/-- Two parts, or the absence of both, decode alike as a type. -/
def Alike
    (type : TypeRef) :
    Option Part → Option Part → Prop
  | none, none => True
  | some part, some part' => ∀ path, part.decoder type path = part'.decoder type path
  | _, _ => False

theorem alike_refl
    (type : TypeRef)
    (part : Option Part) :
    Alike type part part := by
  cases part with
  | none =>
      trivial
  | some part =>
      exact fun path => rfl

theorem Alike.isSome_eq
    {type : TypeRef}
    {part part' : Option Part}
    (h : Alike type part part') :
    part.isSome = part'.isSome := by
  cases part with
  | none =>
      cases part' with
      | none =>
          rfl
      | some part' =>
          exact h.elim
  | some part =>
      cases part' with
      | none =>
          exact h.elim
      | some part' =>
          rfl

/-- Fields are read from what is present under their keys. -/
theorem decodeFields_congr
    {entries entries' : List (String × Part)}
    {fields : List Field}
    (h : ∀ f ∈ fields, Alike f.type (present? entries f.jsonName) (present? entries' f.jsonName))
    (path : DocumentPath) :
    decodeFields path entries fields = decodeFields path entries' fields := by
  induction fields with
  | nil =>
      rfl
  | cons f fields ih =>
      have hfirst := h f List.mem_cons_self
      have hrest := ih fun g hg => h g (List.mem_cons_of_mem f hg)
      unfold decodeFields
      cases hpart : present? entries f.jsonName with
      | none =>
          cases hpart' : present? entries' f.jsonName with
          | none =>
              simp only [hrest]
          | some part' =>
              rw [hpart, hpart'] at hfirst
              exact hfirst.elim
      | some part =>
          cases hpart' : present? entries' f.jsonName with
          | none =>
              rw [hpart, hpart'] at hfirst
              exact hfirst.elim
          | some part' =>
              rw [hpart, hpart'] at hfirst
              simp only [hfirst (path ++ [PathStep.key f.jsonName]), hrest]

theorem findIdx?_congr
    {α : Type}
    {p q : α → Bool}
    {xs : List α}
    (h : ∀ x ∈ xs, p x = q x) :
    xs.findIdx? p = xs.findIdx? q := by
  induction xs with
  | nil =>
      rfl
  | cons x xs ih =>
      rw [List.findIdx?_cons, List.findIdx?_cons, h x List.mem_cons_self,
        ih fun y hy => h y (List.mem_cons_of_mem x hy)]

/-- The case that is read without a tag depends on which keys are present. -/
theorem untaggedCase?_congr
    {body : InterfaceBody}
    {entries entries' : List (String × Part)}
    (h : ∀ c ∈ body.subTypes, ∀ f ∈ body.fieldsOf c,
      (present? entries f.jsonName).isSome = (present? entries' f.jsonName).isSome) :
    untaggedCase? body entries = untaggedCase? body entries' := by
  refine findIdx?_congr fun c hc => ?_
  unfold hasRequired
  rw [Bool.eq_iff_iff, List.all_eq_true, List.all_eq_true]
  refine forall₂_congr fun f hf => ?_
  rw [h c hc f (List.mem_filter.mp hf).1]

theorem taggedCase_congr
    {body : InterfaceBody}
    {tag : String}
    {entries entries' : List (String × Part)}
    (h : present? entries tag = present? entries' tag)
    (path : DocumentPath) :
    taggedCase body tag path entries = taggedCase body tag path entries' := by
  unfold taggedCase
  rw [h]

theorem decodeCase_congr
    {body : InterfaceBody}
    {index : Nat}
    {entries entries' : List (String × Part)}
    (h : ∀ c, body.subTypes[index]? = some c → ∀ f ∈ body.fieldsOf c,
      Alike f.type (present? entries f.jsonName) (present? entries' f.jsonName))
    (id : DeclId)
    (path : DocumentPath) :
    decodeCase body id index path entries = decodeCase body id index path entries' := by
  unfold decodeCase
  cases hc : body.subTypes[index]? with
  | none =>
      rfl
  | some c =>
      dsimp only
      rw [decodeFields_congr (h c hc) path]

/-- The case that an object is read as, by its index. -/
def ReadsCase
    (body : InterfaceBody)
    (entries : List (String × Part))
    (index : Nat) : Prop :=
  match body.strategy with
  | .tagged tag => ∃ path, taggedCase body tag path entries = .ok index
  | .untagged => untaggedCase? body entries = some index

/-- An interface is read from what is present under the tag and the keys of its cases. -/
theorem decode_interface_congr
    {id : DeclId}
    {body : InterfaceBody}
    (hbody : (s.decl id).body = .interface body)
    {entries entries' : List (String × Json)}
    (htag : ∀ tag, body.strategy = .tagged tag →
      present? (viewEntries s entries) tag = present? (viewEntries s entries') tag)
    (hpresent : ∀ c ∈ body.subTypes, ∀ f ∈ body.fieldsOf c,
      (present? (viewEntries s entries) f.jsonName).isSome =
        (present? (viewEntries s entries') f.jsonName).isSome)
    (hfields : ∀ index c, ReadsCase body (viewEntries s entries) index →
      body.subTypes[index]? = some c → ∀ f ∈ body.fieldsOf c,
        Alike f.type (present? (viewEntries s entries) f.jsonName)
          (present? (viewEntries s entries') f.jsonName))
    (path : DocumentPath) :
    (view s (.object entries)).decode s (.decl id) path =
      (view s (.object entries')).decode s (.decl id) path := by
  simp only [view, View.decode, View.decodeDecl, hbody, View.asObject, ok_bind]
  unfold ReadsCase at hfields
  cases hstrategy : body.strategy with
  | tagged tag =>
      dsimp only
      rw [hstrategy] at hfields
      rw [← taggedCase_congr (htag tag hstrategy) path]
      cases hcase : taggedCase body tag path (viewEntries s entries) with
      | error e =>
          rfl
      | ok index =>
          exact decodeCase_congr (fun c hc => hfields index c ⟨path, hcase⟩ hc) id path
  | untagged =>
      dsimp only
      rw [hstrategy] at hfields
      rw [← untaggedCase?_congr hpresent]
      cases hcase : untaggedCase? body (viewEntries s entries) with
      | none =>
          rfl
      | some index =>
          exact decodeCase_congr (fun c hc => hfields index c hcase hc) id path

theorem isSome_present?_iff
    {entries : List (String × Json)}
    {key : String} :
    (present? (viewEntries s entries) key).isSome = true ↔
      ∃ document, entries.lookup key = some document ∧ document ≠ .null := by
  constructor
  · intro h
    obtain ⟨part, hpart⟩ := Option.isSome_iff_exists.mp h
    obtain ⟨document, hlookup, rfl⟩ := lookup_of_present? hpart
    refine ⟨document, hlookup, ?_⟩
    rintro rfl
    simp [present?, lookup_viewEntries, hlookup, partOf] at hpart
  · rintro ⟨document, hlookup, hnull⟩
    rw [present?_of_lookup hlookup hnull]
    rfl

end Presence

section Replaced

variable {s : Schema}

theorem present?_congr
    {entries entries' : List (String × Json)}
    {key : String}
    (h : entries.lookup key = entries'.lookup key) :
    present? (viewEntries s entries) key = present? (viewEntries s entries') key := by
  unfold present?
  rw [lookup_viewEntries, lookup_viewEntries, h]

variable {before after : List (String × Json)}
variable {name : String}
variable {document document' : Json}
variable {type : TypeRef}

/-- Where one entry is exchanged for one that decodes alike, its key decodes alike. -/
theorem alike_present?_of_exchange
    (hdocument : document ≠ .null)
    (hdocument' : document' ≠ .null)
    (h : ∀ path, (view s document).decode s type path = (view s document').decode s type path) :
    Alike type (present? (viewEntries s (before ++ (name, document) :: after)) name)
      (present? (viewEntries s (before ++ (name, document') :: after)) name) := by
  cases hbefore : before.lookup name with
  | some found =>
      have hlookup :
          (before ++ (name, document) :: after).lookup name =
            (before ++ (name, document') :: after).lookup name := by
        rw [lookup_append_cons_self, lookup_append_cons_self, hbefore]
        rfl
      rw [present?_congr hlookup]
      exact alike_refl type _
  | none =>
      have hlookup := lookup_append_cons_self before after name document
      have hlookup' := lookup_append_cons_self before after name document'
      rw [hbefore] at hlookup hlookup'
      rw [present?_of_lookup hlookup hdocument, present?_of_lookup hlookup' hdocument']
      exact h

theorem present?_exchange_of_ne
    {key : String}
    (hne : key ≠ name) :
    present? (viewEntries s (before ++ (name, document) :: after)) key =
      present? (viewEntries s (before ++ (name, document') :: after)) key := by
  refine present?_congr ?_
  rw [lookup_append_cons_of_ne hne, lookup_append_cons_of_ne hne]

/-- The same keys are present after the exchange. -/
theorem isSome_present?_exchange
    (hdocument : document ≠ .null)
    (hdocument' : document' ≠ .null)
    (h : ∀ path, (view s document).decode s type path = (view s document').decode s type path)
    (key : String) :
    (present? (viewEntries s (before ++ (name, document) :: after)) key).isSome =
      (present? (viewEntries s (before ++ (name, document') :: after)) key).isSome := by
  by_cases hkey : key = name
  · rw [hkey]
    exact (alike_present?_of_exchange hdocument hdocument' h).isSome_eq
  · rw [present?_exchange_of_ne hkey]

/-- A field of its own key is read alike, whichever entry was exchanged. -/
theorem alike_of_exchange
    {fields : List Field}
    (hdistinct : (fields.map (·.jsonName)).Nodup)
    {f g : Field}
    (hf : f ∈ fields)
    (hg : g ∈ fields)
    (hdocument : document ≠ .null)
    (hdocument' : document' ≠ .null)
    (h : ∀ path, (view s document).decode s f.type path = (view s document').decode s f.type path) :
    Alike g.type (present? (viewEntries s (before ++ (f.jsonName, document) :: after)) g.jsonName)
      (present? (viewEntries s (before ++ (f.jsonName, document') :: after)) g.jsonName) := by
  by_cases hname : g.jsonName = f.jsonName
  · obtain rfl := List.inj_on_of_nodup_map hdistinct hg hf hname
    exact alike_present?_of_exchange hdocument hdocument' h
  · rw [present?_exchange_of_ne hname]
    exact alike_refl g.type _

variable {path : DocumentPath}

theorem decodeItems_exchange
    {before after : List Json}
    {index : Nat}
    (h : ∀ path, (view s document).decode s type path = (view s document').decode s type path) :
    decodeItems type path index (viewItems s (before ++ document :: after)) =
      decodeItems type path index (viewItems s (before ++ document' :: after)) := by
  induction before generalizing index with
  | nil =>
      simp only [List.nil_append, viewItems, decodeItems, h]
  | cons item before ih =>
      simp only [List.cons_append, viewItems, decodeItems, ih]

theorem decodeEntries_exchange
    {key : TypeRef}
    (h : ∀ path, (view s document).decode s type path = (view s document').decode s type path) :
    decodeEntries key type path (viewEntries s (before ++ (name, document) :: after)) =
      decodeEntries key type path (viewEntries s (before ++ (name, document') :: after)) := by
  induction before with
  | nil =>
      simp only [List.nil_append, viewEntries, decodeEntries, h]
  | cons e before ih =>
      simp only [List.cons_append, viewEntries, decodeEntries, ih]

theorem decodeTuple_exchange
    {before after : List Json}
    {types : List TypeRef}
    {index : Nat}
    (htype : types[before.length]? = some type)
    (h : ∀ path, (view s document).decode s type path = (view s document').decode s type path) :
    decodeTuple path index types (viewItems s (before ++ document :: after)) =
      decodeTuple path index types (viewItems s (before ++ document' :: after)) := by
  induction before generalizing index types with
  | nil =>
      cases types with
      | nil =>
          cases htype
      | cons first types =>
          obtain rfl := Option.some.inj htype
          simp only [List.nil_append, viewItems, decodeTuple, h]
  | cons item before ih =>
      cases types with
      | nil =>
          cases htype
      | cons first types =>
          simp only [List.cons_append, viewItems, decodeTuple, ih htype]

/-- An item that is not null is read as the field at its position. -/
theorem decodePositions_cons_of_ne_null
    {f : Field}
    {fields : List Field}
    {part : Part}
    {parts : List Part}
    {index : Nat}
    (hnull : part.document ≠ .null) :
    decodePositions path index (f :: fields) (part :: parts) = (do
      let value ← part.decoder f.type (path ++ [PathStep.index index])
      return some value :: (← decodePositions path (index + 1) fields parts)) := by
  rw [decodePositions]
  split
  · contradiction
  · rfl

theorem decodePositions_exchange
    {before after : List Json}
    {fields : List Field}
    {f : Field}
    {index : Nat}
    (hf : fields[before.length]? = some f)
    (hdocument : document ≠ .null)
    (hdocument' : document' ≠ .null)
    (h : ∀ path, (view s document).decode s f.type path = (view s document').decode s f.type path) :
    decodePositions path index fields (viewItems s (before ++ document :: after)) =
      decodePositions path index fields (viewItems s (before ++ document' :: after)) := by
  induction before generalizing index fields with
  | nil =>
      cases fields with
      | nil =>
          cases hf
      | cons g fields =>
          obtain rfl := Option.some.inj hf
          rw [List.nil_append, List.nil_append, viewItems, viewItems,
            decodePositions_cons_of_ne_null hdocument, decodePositions_cons_of_ne_null hdocument']
          simp only [h]
  | cons item before ih =>
      cases fields with
      | nil =>
          cases hf
      | cons g fields =>
          simp only [List.cons_append, viewItems, decodePositions, ih hf]

end Replaced

section Further

variable {s : Schema}
variable {path : DocumentPath}

theorem decodeTuple_append
    {types : List TypeRef}
    {parts more : List Part}
    {index : Nat}
    (hlength : types.length ≤ parts.length) :
    decodeTuple path index types (parts ++ more) = decodeTuple path index types parts := by
  induction types generalizing parts index with
  | nil =>
      simp only [decodeTuple]
  | cons type types ih =>
      cases parts with
      | nil =>
          simp at hlength
      | cons part parts =>
          have hrest : types.length ≤ parts.length := by
            simpa using hlength
          simp only [List.cons_append, decodeTuple, ih hrest]

theorem decodePositions_append
    {fields : List Field}
    {parts more : List Part}
    {index : Nat}
    (hlength : fields.length ≤ parts.length) :
    decodePositions path index fields (parts ++ more) =
      decodePositions path index fields parts := by
  induction fields generalizing parts index with
  | nil =>
      simp only [decodePositions]
  | cons f fields ih =>
      cases parts with
      | nil =>
          simp at hlength
      | cons part parts =>
          have hrest : fields.length ≤ parts.length := by
            simpa using hlength
          simp only [List.cons_append, decodePositions, ih hrest]

end Further

end Codec
end Schemata
