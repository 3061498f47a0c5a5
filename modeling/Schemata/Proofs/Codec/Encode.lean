import Schemata.Codec.Encode
import Schemata.Proofs.Codec.Typing
import Schemata.Proofs.Except

/-!
# Encoding succeeds on values of types

The encoder checks a value against the schema while it writes it.  A value of
a type passes all of these checks, under both placements of the tag: integers
of every primitive type and of every well-formed enum fit 64 bits, records have
one slot for each field, and keys of maps are strings or whole numbers.

**Result.** `encodeAt_ok`.
-/

namespace Schemata
namespace Codec

section Steps

variable {s : Schema}
variable {placement : Placement}
variable {path : DocumentPath}

theorem encodeItems_cons_eq_ok
    {item : Value}
    {rest : List Value}
    {index : Nat}
    {documents : List Json} :
    encodeItems s placement (item :: rest) path index = .ok documents ↔
      ∃ first others, encodeAt s placement item (path ++ [PathStep.index index]) = .ok first ∧
        encodeItems s placement rest path (index + 1) = .ok others ∧
        documents = first :: others := by
  simp only [encodeItems, bind_eq_ok, pure, Except.pure, Except.ok.injEq]
  constructor
  · rintro ⟨first, hfirst, others, hothers, rfl⟩
    exact ⟨first, others, hfirst, hothers, rfl⟩
  · rintro ⟨first, others, hfirst, hothers, rfl⟩
    exact ⟨first, hfirst, others, hothers, rfl⟩

theorem encodeEntries_cons_eq_ok
    {key value : Value}
    {rest : List (Value × Value)}
    {object result : List (String × Json)} :
    encodeEntries s placement ((key, value) :: rest) path object = .ok result ↔
      ∃ name document, encodeKey key path = .ok name ∧
        encodeAt s placement value (path ++ [PathStep.key name]) = .ok document ∧
        encodeEntries s placement rest path (Json.insert object name document) = .ok result := by
  simp only [encodeEntries, bind_eq_ok]
  constructor
  · rintro ⟨name, hname, document, hdocument, hrest⟩
    exact ⟨name, document, hname, hdocument, hrest⟩
  · rintro ⟨name, document, hname, hdocument, hrest⟩
    exact ⟨name, hname, document, hdocument, hrest⟩

theorem encodePositions_some_eq_ok
    {value : Value}
    {slots : List (Option Value)}
    {f : Field}
    {fields : List Field}
    {index : Nat}
    {documents : List Json} :
    encodePositions s placement (some value :: slots) path (f :: fields) index = .ok documents ↔
      ∃ first others, encodeAt s placement value (path ++ [PathStep.index index]) = .ok first ∧
        encodePositions s placement slots path fields (index + 1) = .ok others ∧
        documents = first :: others := by
  simp only [encodePositions, bind_eq_ok, pure, Except.pure, Except.ok.injEq]
  constructor
  · rintro ⟨first, hfirst, others, hothers, rfl⟩
    exact ⟨first, others, hfirst, hothers, rfl⟩
  · rintro ⟨first, others, hfirst, hothers, rfl⟩
    exact ⟨first, hfirst, others, hothers, rfl⟩

theorem encodePositions_none_eq_ok
    {slots : List (Option Value)}
    {f : Field}
    {fields : List Field}
    {index : Nat}
    {documents : List Json}
    (hf : f.optional = true) :
    encodePositions s placement (none :: slots) path (f :: fields) index = .ok documents ↔
      ∃ others, encodePositions s placement slots path fields (index + 1) = .ok others ∧
        documents = .null :: others := by
  simp only [encodePositions, hf, if_true, bind_eq_ok, pure, Except.pure, Except.ok.injEq]
  constructor
  · rintro ⟨others, hothers, rfl⟩
    exact ⟨others, hothers, rfl⟩
  · rintro ⟨others, hothers, rfl⟩
    exact ⟨others, hothers, rfl⟩

theorem encodeFields_some_eq_ok
    {value : Value}
    {slots : List (Option Value)}
    {f : Field}
    {fields : List Field}
    {object result : List (String × Json)} :
    encodeFields s placement (some value :: slots) path (f :: fields) object = .ok result ↔
      ∃ document, encodeAt s placement value (path ++ [PathStep.key f.jsonName]) = .ok document ∧
        encodeFields s placement slots path fields
          (Json.insert object f.jsonName document) = .ok result := by
  simp only [encodeFields, bind_eq_ok]

theorem encodeFields_none
    {slots : List (Option Value)}
    {f : Field}
    {fields : List Field}
    {object : List (String × Json)}
    (hf : f.optional = true) :
    encodeFields s placement (none :: slots) path (f :: fields) object =
      encodeFields s placement slots path fields object := by
  simp only [encodeFields, hf, if_true]

/-- What follows the fields of an object. -/
def finish
    (entries : List (String × Json)) :
    Option (String × Json) → List (String × Json)
  | some (tag, literal) => Json.insert entries tag literal
  | none => entries

theorem encodeAt_array_layout
    {id : DeclId}
    {subType : Option Nat}
    {slots : List (Option Value)}
    {fields : List Field}
    (hlayout : layout s placement id subType path = .ok (.array fields))
    (hlength : slots.length = fields.length)
    {document : Json} :
    encodeAt s placement (.record id subType slots) path = .ok document ↔
      ∃ documents, encodePositions s placement slots path fields 0 = .ok documents ∧
        document = .array documents := by
  have harity : checkArity fields.length slots.length path = .ok () := by
    simp [checkArity, hlength]
  simp only [encodeAt, hlayout, ok_bind, harity, bind_eq_ok, pure, Except.pure,
    Except.ok.injEq]
  constructor
  · rintro ⟨documents, hdocuments, rfl⟩
    exact ⟨documents, hdocuments, rfl⟩
  · rintro ⟨documents, hdocuments, rfl⟩
    exact ⟨documents, hdocuments, rfl⟩

theorem encodeAt_object_layout
    {id : DeclId}
    {subType : Option Nat}
    {slots : List (Option Value)}
    {before : List (String × Json)}
    {fields : List Field}
    {after : Option (String × Json)}
    (hlayout : layout s placement id subType path = .ok (.object before fields after))
    (hlength : slots.length = fields.length)
    {document : Json} :
    encodeAt s placement (.record id subType slots) path = .ok document ↔
      ∃ entries, encodeFields s placement slots path fields before = .ok entries ∧
        document = .object (finish entries after) := by
  have harity : checkArity fields.length slots.length path = .ok () := by
    simp [checkArity, hlength]
  simp only [encodeAt, hlayout, ok_bind, harity, bind_eq_ok, pure, Except.pure]
  cases after with
  | none =>
      simp [finish, eq_comm]
  | some last =>
      simp [finish, eq_comm]

end Steps

section Scalars

/-- Integers of every primitive type fit 64 bits. -/
theorem range_fits
    {p : Primitive}
    {least greatest : Int}
    (h : p.range? = some (least, greatest)) :
    -9223372036854775808 ≤ least ∧ greatest ≤ 18446744073709551615 := by
  cases p <;> simp only [Primitive.range?, reduceCtorEq, Option.some.injEq, Prod.mk.injEq] at h
  all_goals
    obtain ⟨rfl, rfl⟩ := h
    decide

theorem encodeInteger_ok
    {n : Int}
    (h : -9223372036854775808 ≤ n ∧ n ≤ 18446744073709551615)
    (path : DocumentPath) :
    encodeInteger n path = .ok (.integer n) := by
  unfold encodeInteger
  rw [if_pos h]

theorem encodeInteger_of_range
    {p : Primitive}
    {n least greatest : Int}
    (hrange : p.range? = some (least, greatest))
    (hleast : least ≤ n)
    (hgreatest : n ≤ greatest)
    (path : DocumentPath) :
    encodeInteger n path = .ok (.integer n) := by
  have hfits := range_fits hrange
  exact encodeInteger_ok ⟨by omega, by omega⟩ path

/-- The key of an entry: a string as it is, or the digits of a whole number. -/
def keyText : Value → String
  | .string name => name
  | .integer n => toString n
  | _ => ""

theorem encodeKey_ok
    {s : Schema}
    {v : Value}
    {key : TypeRef}
    (hv : HasType s v key)
    (hkey : key.IsKeyType)
    (path : DocumentPath) :
    encodeKey v path = .ok (keyText v) := by
  rcases hv.key_cases hkey with ⟨rfl, name, rfl⟩ | ⟨p, n, least, greatest, rfl, rfl, -⟩
  · rfl
  · rfl

/-- The document of the value of a member. -/
def memberDocument : EnumValue → Json
  | .string text => .string text
  | .number n => .integer n

theorem encodeMember_ok
    {s : Schema}
    (hs : s.WellFormed)
    (placement : Placement)
    {id : DeclId}
    {member : Nat}
    {valueType : EnumType}
    {members : List EnumMember}
    (hbody : (s.decl id).body = .enum valueType members)
    (hmember : member < members.length)
    (path : DocumentPath) :
    encodeAt s placement (.enum id member) path =
      .ok (memberDocument members[member].value) := by
  have hwf := (hs.decl id).body
  rw [hbody] at hwf
  have hadmits := hwf.admitted members[member] (List.getElem_mem hmember)
  simp only [encodeAt, encodeMember, hbody, List.getElem?_eq_getElem hmember]
  cases hvalue : members[member].value with
  | string text =>
      rfl
  | number n =>
      rw [hvalue] at hadmits
      obtain ⟨least, greatest, hrange, hleast, hgreatest⟩ := hadmits
      exact encodeInteger_of_range hrange hleast hgreatest path

end Scalars

section Success

variable {s : Schema}
variable {placement : Placement}

/-- The value can be encoded wherever it stands. -/
def Encodes
    (s : Schema)
    (placement : Placement)
    (v : Value) : Prop :=
  ∀ path, ∃ document, encodeAt s placement v path = .ok document

theorem encodeItems_ok
    {items : List Value}
    (h : ∀ v ∈ items, Encodes s placement v)
    (path : DocumentPath)
    (index : Nat) :
    ∃ documents, encodeItems s placement items path index = .ok documents := by
  induction items generalizing index with
  | nil =>
      exact ⟨[], by rw [encodeItems]⟩
  | cons v items ih =>
      obtain ⟨first, hfirst⟩ := h v List.mem_cons_self (path ++ [PathStep.index index])
      obtain ⟨others, hothers⟩ :=
        ih (fun w hw => h w (List.mem_cons_of_mem v hw)) (index + 1)
      exact ⟨first :: others,
        encodeItems_cons_eq_ok.mpr ⟨first, others, hfirst, hothers, rfl⟩⟩

theorem encodeEntries_ok
    {entries : List (Value × Value)}
    (hkeys : ∀ e ∈ entries, ∀ path, encodeKey e.1 path = .ok (keyText e.1))
    (hvalues : ∀ e ∈ entries, Encodes s placement e.2)
    (path : DocumentPath)
    (object : List (String × Json)) :
    ∃ result, encodeEntries s placement entries path object = .ok result := by
  induction entries generalizing object with
  | nil =>
      exact ⟨object, by rw [encodeEntries]⟩
  | cons e entries ih =>
      obtain ⟨key, value⟩ := e
      have hkey := hkeys (key, value) List.mem_cons_self path
      obtain ⟨document, hdocument⟩ :=
        hvalues (key, value) List.mem_cons_self (path ++ [PathStep.key (keyText key)])
      obtain ⟨result, hresult⟩ :=
        ih (fun e he => hkeys e (List.mem_cons_of_mem _ he))
          (fun e he => hvalues e (List.mem_cons_of_mem _ he))
          (Json.insert object (keyText key) document)
      exact ⟨result,
        encodeEntries_cons_eq_ok.mpr ⟨keyText key, document, hkey, hdocument, hresult⟩⟩

theorem encodePositions_ok
    {slots : List (Option Value)}
    {fields : List Field}
    (habsent : ∀ f, (f, none) ∈ fields.zip slots → f.optional = true)
    (hpresent : ∀ f v, (f, some v) ∈ fields.zip slots → Encodes s placement v)
    (path : DocumentPath)
    (index : Nat) :
    ∃ documents, encodePositions s placement slots path fields index = .ok documents := by
  induction fields generalizing slots index with
  | nil =>
      cases slots with
      | nil =>
          exact ⟨[], by rw [encodePositions] <;> simp⟩
      | cons slot slots =>
          exact ⟨[], by rw [encodePositions] <;> simp⟩
  | cons f fields ih =>
      cases slots with
      | nil =>
          exact ⟨[], by rw [encodePositions] <;> simp⟩
      | cons slot slots =>
          obtain ⟨others, hothers⟩ :=
            ih (fun g hg => habsent g (List.mem_cons_of_mem _ hg))
              (fun g v hg => hpresent g v (List.mem_cons_of_mem _ hg)) (index + 1)
          cases slot with
          | none =>
              have hf := habsent f List.mem_cons_self
              exact ⟨.null :: others,
                (encodePositions_none_eq_ok hf).mpr ⟨others, hothers, rfl⟩⟩
          | some v =>
              obtain ⟨first, hfirst⟩ :=
                hpresent f v List.mem_cons_self (path ++ [PathStep.index index])
              exact ⟨first :: others,
                encodePositions_some_eq_ok.mpr ⟨first, others, hfirst, hothers, rfl⟩⟩

theorem encodeFields_ok
    {slots : List (Option Value)}
    {fields : List Field}
    (habsent : ∀ f, (f, none) ∈ fields.zip slots → f.optional = true)
    (hpresent : ∀ f v, (f, some v) ∈ fields.zip slots → Encodes s placement v)
    (path : DocumentPath)
    (object : List (String × Json)) :
    ∃ result, encodeFields s placement slots path fields object = .ok result := by
  induction fields generalizing slots object with
  | nil =>
      cases slots with
      | nil =>
          exact ⟨object, by rw [encodeFields] <;> simp⟩
      | cons slot slots =>
          exact ⟨object, by rw [encodeFields] <;> simp⟩
  | cons f fields ih =>
      cases slots with
      | nil =>
          exact ⟨object, by rw [encodeFields] <;> simp⟩
      | cons slot slots =>
          have habsent' : ∀ g, (g, none) ∈ fields.zip slots → g.optional = true :=
            fun g hg => habsent g (List.mem_cons_of_mem _ hg)
          have hpresent' : ∀ g v, (g, some v) ∈ fields.zip slots → Encodes s placement v :=
            fun g v hg => hpresent g v (List.mem_cons_of_mem _ hg)
          cases slot with
          | none =>
              rw [encodeFields_none (habsent f List.mem_cons_self)]
              exact ih habsent' hpresent' object
          | some v =>
              obtain ⟨document, hdocument⟩ :=
                hpresent f v List.mem_cons_self (path ++ [PathStep.key f.jsonName])
              obtain ⟨result, hresult⟩ :=
                ih habsent' hpresent' (Json.insert object f.jsonName document)
              exact ⟨result,
                encodeFields_some_eq_ok.mpr ⟨document, hdocument, hresult⟩⟩

/-- A record of the right shape has a layout for its fields: an array for the declaration of a tuple,
and else an object. -/
theorem exists_layout
    {id : DeclId}
    {subType : Option Nat}
    {fields : List Field}
    (h : s.recordFields? id subType = some fields)
    (placement : Placement)
    (path : DocumentPath) :
    layout s placement id subType path = .ok (.array fields) ∨
      ∃ before after, layout s placement id subType path = .ok (.object before fields after) := by
  rcases Schema.recordFields?_cases h with
    ⟨hbody, rfl⟩ | ⟨hbody, rfl⟩ | ⟨body, index, c, hbody, rfl, hc, rfl⟩
  · exact Or.inr ⟨[], none, by simp only [layout, hbody]⟩
  · exact Or.inl (by simp only [layout, hbody])
  · have hlayout : layout s placement id (some index) path =
        .ok (caseLayout placement body c) := by
      simp only [layout, hbody, hc]
    rw [hlayout, caseLayout]
    cases body.strategy with
    | untagged =>
        exact Or.inr ⟨[], none, rfl⟩
    | tagged tag =>
        cases placement with
        | first =>
            exact Or.inr ⟨[(tag, .string c.literal)], none, rfl⟩
        | last =>
            exact Or.inr ⟨[], some (tag, .string c.literal), rfl⟩

theorem exists_mem_zip
    {α β : Type}
    {as : List α}
    {bs : List β}
    (hlength : as.length = bs.length)
    {a : α}
    (ha : a ∈ as) :
    ∃ b, (a, b) ∈ as.zip bs := by
  obtain ⟨i, hi, rfl⟩ := List.mem_iff_getElem.mp ha
  refine ⟨bs[i], List.mem_iff_getElem.mpr ⟨i, by simp; omega, ?_⟩⟩
  rw [List.getElem_zip]

/-- A value of a type can be encoded. -/
theorem encodeAt_ok
    (hs : s.WellFormed)
    (placement : Placement)
    {v : Value}
    {type : TypeRef}
    (hv : HasType s v type) :
    type.ValidKeys → Encodes s placement v := by
  induction hv with
  | boolean b =>
      intro _ path
      exact ⟨_, by rw [encodeAt]⟩
  | string text hp =>
      intro _ path
      exact ⟨_, by rw [encodeAt]⟩
  | integer hrange hleast hgreatest =>
      intro _ path
      rw [encodeAt]
      exact ⟨_, encodeInteger_of_range hrange hleast hgreatest path⟩
  | float hp hfinite =>
      intro _ path
      rw [encodeAt, encodeDouble, if_pos hfinite]
      exact ⟨_, rfl⟩
  | any document =>
      intro _ path
      exact ⟨_, by rw [encodeAt]⟩
  | array hitems ih =>
      intro hkeys path
      rw [TypeRef.validKeys_array] at hkeys
      obtain ⟨documents, hdocuments⟩ :=
        encodeItems_ok (fun v hv => ih v hv hkeys) path 0
      exact ⟨.array documents, by rw [encodeAt, hdocuments]; rfl⟩
  | map hkeyTypes hvalues ihKeys ihValues =>
      intro hkeys path
      rw [TypeRef.validKeys_map] at hkeys
      obtain ⟨result, hresult⟩ :=
        encodeEntries_ok (fun e he => encodeKey_ok (hkeyTypes e he) hkeys.1)
          (fun e he => ihValues e he hkeys.2.2) path []
      exact ⟨.object result, by rw [encodeAt, hresult]; rfl⟩
  | @tuple items types hlength hitems ih =>
      intro hkeys path
      rw [TypeRef.validKeys_tuple] at hkeys
      have hall : ∀ v ∈ items, Encodes s placement v := by
        intro v hv
        obtain ⟨type, hmem⟩ := exists_mem_zip hlength hv
        exact ih (v, type) hmem (hkeys type (List.of_mem_zip hmem).2)
      obtain ⟨documents, hdocuments⟩ := encodeItems_ok hall path 0
      exact ⟨.array documents, by rw [encodeAt, hdocuments]; rfl⟩
  | @record id subType fields slots hfields hlength habsent hpresent ih =>
      intro _ path
      have hall : ∀ f v, (f, some v) ∈ fields.zip slots → Encodes s placement v := by
        intro f v hmem
        exact ih f v hmem (hs.field_validKeys hfields f (List.of_mem_zip hmem).1)
      rcases exists_layout hfields placement path with hlayout | ⟨before, after, hlayout⟩
      · obtain ⟨documents, hdocuments⟩ := encodePositions_ok habsent hall path 0
        exact ⟨.array documents,
          (encodeAt_array_layout hlayout hlength).mpr ⟨documents, hdocuments, rfl⟩⟩
      · obtain ⟨entries, hentries⟩ := encodeFields_ok habsent hall path before
        exact ⟨.object (finish entries after),
          (encodeAt_object_layout hlayout hlength).mpr ⟨entries, hentries, rfl⟩⟩
  | enum hbody hmember =>
      intro _ path
      exact ⟨_, encodeMember_ok hs placement hbody hmember path⟩

end Success

end Codec
end Schemata
