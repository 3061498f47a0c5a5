import Schemata.Proofs.Codec.Object
import Schemata.Proofs.Resolve.WellFormed
import Mathlib.Data.List.Forall2

/-!
# The placement of the tag

The encoder writes the tag of an interface before the fields or after them.
The two runs take the same steps, so they fail with the same error or both
succeed; and since no field has the key of the tag, and fields have keys of
their own, the tag is a new key in either run.  So the documents differ in the
order of keys only.

`Writes` says what the document of a value looks like: in the object of a case
of a tagged interface the tag comes first or last, and the other keys are those
of the fields that have a value, in the order of the declaration.
`Json.Reordered` is equality up to the order of keys, at every depth.

**Results.** `endsAlike`, `encode_placement`.
-/

namespace Schemata

section Values

theorem Value.sizeOf_lt_of_mem_inner
    {v w : Value}
    (hw : w ∈ v.inner) :
    sizeOf w < sizeOf v := by
  cases v with
  | boolean | string | integer | float | any | enum =>
      cases hw
  | array items | tuple items =>
      have hlt := List.sizeOf_lt_of_mem (show w ∈ items from hw)
      simp only [Value.array.sizeOf_spec, Value.tuple.sizeOf_spec]
      omega
  | map entries =>
      rcases List.mem_append.mp hw with hkey | hvalue
      · obtain ⟨⟨key, value⟩, he, rfl⟩ := List.mem_map.mp hkey
        have hlt := List.sizeOf_lt_of_mem he
        simp only [Value.map.sizeOf_spec, Prod.mk.sizeOf_spec] at hlt ⊢
        omega
      · obtain ⟨⟨key, value⟩, he, rfl⟩ := List.mem_map.mp hvalue
        have hlt := List.sizeOf_lt_of_mem he
        simp only [Value.map.sizeOf_spec, Prod.mk.sizeOf_spec] at hlt ⊢
        omega
  | record id subType slots =>
      obtain ⟨slot, hslot, rfl⟩ := List.mem_filterMap.mp hw
      have hlt := List.sizeOf_lt_of_mem hslot
      simp only [Value.record.sizeOf_spec, Option.some.sizeOf_spec] at hlt ⊢
      omega

/-- Induction on values, with a hypothesis for each value directly inside. -/
theorem Value.innerInduction
    {motive : Value → Prop}
    (step : ∀ v : Value, (∀ w ∈ v.inner, motive w) → motive v)
    (v : Value) :
    motive v :=
  step v fun w hw =>
    have := Value.sizeOf_lt_of_mem_inner hw
    innerInduction step w
termination_by sizeOf v

end Values

section Order

/-- Two things under one key are related. -/
inductive UnderKey
    {α β : Type}
    (R : α → β → Prop) :
    String × α → String × β → Prop
  | intro
      {a : α}
      {b : β}
      (key : String)
      (h : R a b) :
      UnderKey R (key, a) (key, b)

theorem keys_eq_of_underKey
    {α β : Type}
    {R : α → β → Prop}
    {as : List (String × α)}
    {bs : List (String × β)}
    (h : List.Forall₂ (UnderKey R) as bs) :
    as.map Prod.fst = bs.map Prod.fst := by
  induction h with
  | nil => rfl
  | cons he _ ih =>
      cases he with
      | intro key _ => exact congrArg (key :: ·) ih

/-- Two documents are equal up to the order of the keys of objects, at every depth. -/
inductive Json.Reordered : Json → Json → Prop
  | same
      (document : Json) :
      Reordered document document
  | array
      {items items' : List Json}
      (hitems : List.Forall₂ Reordered items items') :
      Reordered (.array items) (.array items')
  | object
      {entries between entries' : List (String × Json)}
      (hentries : List.Forall₂ (UnderKey Reordered) entries between)
      (hperm : between.Perm entries') :
      Reordered (.object entries) (.object entries')

/-- The same key is set in both objects, so it is new in both or replaced in both. -/
theorem Json.insert_underKey
    {entries entries' : List (String × Json)}
    (h : List.Forall₂ (UnderKey Json.Reordered) entries entries')
    (key : String)
    {d d' : Json}
    (hd : d.Reordered d') :
    List.Forall₂ (UnderKey Json.Reordered)
      (Json.insert entries key d) (Json.insert entries' key d') := by
  induction h with
  | nil =>
      exact .cons (.intro key hd) .nil
  | cons he hrest ih =>
      cases he with
      | intro k hdocument =>
          by_cases hkey : k = key
          · simp only [Json.insert, hkey, beq_self_eq_true, if_true]
            exact .cons (.intro key hd) hrest
          · simp only [Json.insert, beq_iff_eq, hkey, if_false]
            exact .cons (.intro k hdocument) ih

end Order

namespace Codec

section Documents

/-- The document of a slot of a tuple: `null` when the slot is empty. -/
inductive SlotDocument
    (R : Value → Json → Prop) :
    Option Value → Json → Prop
  | absent :
      SlotDocument R none .null
  | present
      {v : Value}
      {d : Json}
      (h : R v d) :
      SlotDocument R (some v) d

/-- The values of a record under the keys of their fields, in the order of the declaration; fields
without a value are left out. -/
def keyedSlots : List Field → List (Option Value) → List (String × Value)
  | f :: fields, some v :: slots => (f.jsonName, v) :: keyedSlots fields slots
  | _ :: fields, none :: slots => keyedSlots fields slots
  | _, _ => []

theorem exists_field_of_mem_keyedSlots
    {fields : List Field}
    {slots : List (Option Value)}
    {key : String}
    (h : key ∈ (keyedSlots fields slots).map Prod.fst) :
    ∃ f ∈ fields, f.jsonName = key := by
  fun_induction keyedSlots fields slots with
  | case1 f fields v slots ih =>
      rcases List.mem_cons.mp h with rfl | hrest
      · exact ⟨f, List.mem_cons_self, rfl⟩
      · obtain ⟨g, hg, hkey⟩ := ih hrest
        exact ⟨g, List.mem_cons_of_mem f hg, hkey⟩
  | case2 f fields slots ih =>
      obtain ⟨g, hg, hkey⟩ := ih h
      exact ⟨g, List.mem_cons_of_mem f hg, hkey⟩
  | case3 => cases h

/-- The values of a map under the keys they are written with. -/
def keyedEntries
    (entries : List (Value × Value)) :
    List (String × Value) :=
  entries.map fun e => (keyText e.1, e.2)

/-- The keys of an object with its tag. -/
def withTag
    (placement : Placement)
    (tag : String × Json)
    (payload : List (String × Json)) :
    List (String × Json) :=
  match placement with
  | .first => tag :: payload
  | .last => payload ++ [tag]

/-- An object with these keys set in turn. -/
def setAll
    (object written : List (String × Json)) :
    List (String × Json) :=
  written.foldl (fun entries e => Json.insert entries e.1 e.2) object

theorem setAll_underKey
    {object object' written written' : List (String × Json)}
    (h : List.Forall₂ (UnderKey Json.Reordered) object object')
    (hwritten : List.Forall₂ (UnderKey Json.Reordered) written written') :
    List.Forall₂ (UnderKey Json.Reordered)
      (setAll object written) (setAll object' written') := by
  induction hwritten generalizing object object' with
  | nil =>
      exact h
  | cons he _ ih =>
      cases he with
      | intro key hd => exact ih (Json.insert_underKey h key hd)

/-- The documents of values, with the tags of interfaces in their place. -/
inductive Writes
    (s : Schema)
    (placement : Placement) :
    Value → Json → Prop
  | boolean
      (b : Bool) :
      Writes s placement (.boolean b) (.bool b)
  | string
      (text : String) :
      Writes s placement (.string text) (.string text)
  | integer
      (n : Int) :
      Writes s placement (.integer n) (.integer n)
  | float
      (d : Decimal.Double) :
      Writes s placement (.float d) (.float d)
  | any
      (document : Json) :
      Writes s placement (.any document) document
  | enum
      {id : DeclId}
      {member : Nat}
      {valueType : EnumType}
      {members : List EnumMember}
      {m : EnumMember}
      (hbody : (s.decl id).body = .enum valueType members)
      (hm : members[member]? = some m) :
      Writes s placement (.enum id member) (memberDocument m.value)
  | array
      {items : List Value}
      {documents : List Json}
      (hitems : List.Forall₂ (Writes s placement) items documents) :
      Writes s placement (.array items) (.array documents)
  | tuple
      {items : List Value}
      {documents : List Json}
      (hitems : List.Forall₂ (Writes s placement) items documents) :
      Writes s placement (.tuple items) (.array documents)
  /-- Of entries with one key, the first gives the place and the last the document. -/
  | map
      {entries : List (Value × Value)}
      {written : List (String × Json)}
      (hwritten : List.Forall₂ (UnderKey (Writes s placement)) (keyedEntries entries) written) :
      Writes s placement (.map entries) (.object (setAll [] written))
  | positions
      {id : DeclId}
      {fields : List Field}
      {slots : List (Option Value)}
      {documents : List Json}
      (hbody : (s.decl id).body = .tuple fields)
      (hslots : List.Forall₂ (SlotDocument (Writes s placement)) slots documents) :
      Writes s placement (.record id none slots) (.array documents)
  | fields
      {id : DeclId}
      {fields : List Field}
      {slots : List (Option Value)}
      {payload : List (String × Json)}
      (hbody : (s.decl id).body = .type fields)
      (hpayload : List.Forall₂ (UnderKey (Writes s placement)) (keyedSlots fields slots) payload) :
      Writes s placement (.record id none slots) (.object payload)
  | untagged
      {id : DeclId}
      {body : InterfaceBody}
      {index : Nat}
      {c : SubType}
      {slots : List (Option Value)}
      {payload : List (String × Json)}
      (hbody : (s.decl id).body = .interface body)
      (hc : body.subTypes[index]? = some c)
      (hstrategy : body.strategy = .untagged)
      (hpayload : List.Forall₂ (UnderKey (Writes s placement))
        (keyedSlots (body.fieldsOf c) slots) payload) :
      Writes s placement (.record id (some index) slots) (.object payload)
  | tagged
      {id : DeclId}
      {body : InterfaceBody}
      {index : Nat}
      {c : SubType}
      {tag : String}
      {slots : List (Option Value)}
      {payload : List (String × Json)}
      (hbody : (s.decl id).body = .interface body)
      (hc : body.subTypes[index]? = some c)
      (hstrategy : body.strategy = .tagged tag)
      (hpayload : List.Forall₂ (UnderKey (Writes s placement))
        (keyedSlots (body.fieldsOf c) slots) payload) :
      Writes s placement (.record id (some index) slots)
        (.object (withTag placement (tag, .string c.literal) payload))

end Documents

section Outcomes

variable {ε α β γ δ : Type}

/-- Two computations end alike: with the same error, or with values that are related. -/
inductive SameOutcome
    (R : α → β → Prop) :
    Except ε α → Except ε β → Prop
  | error
      (e : ε) :
      SameOutcome R (.error e) (.error e)
  | ok
      {a : α}
      {b : β}
      (h : R a b) :
      SameOutcome R (.ok a) (.ok b)

variable {R : α → β → Prop}
variable {S : γ → δ → Prop}

theorem SameOutcome.bind
    {x : Except ε α}
    {y : Except ε β}
    {f : α → Except ε γ}
    {g : β → Except ε δ}
    (h : SameOutcome R x y)
    (hrest : ∀ a b, R a b → SameOutcome S (f a) (g b)) :
    SameOutcome S (x >>= f) (y >>= g) := by
  cases h with
  | error e => exact .error e
  | ok hab => exact hrest _ _ hab

theorem SameOutcome.mono
    {R' : α → β → Prop}
    {x : Except ε α}
    {y : Except ε β}
    (h : SameOutcome R x y)
    (hR : ∀ a b, R a b → R' a b) :
    SameOutcome R' x y := by
  cases h with
  | error e => exact .error e
  | ok hab => exact .ok (hR _ _ hab)

theorem SameOutcome.self
    (x : Except ε α) :
    SameOutcome (fun a b => x = .ok a ∧ a = b) x x := by
  cases x with
  | error e => exact .error e
  | ok a => exact .ok ⟨rfl, rfl⟩

end Outcomes

section Runs

/-- What values are written as with the tags first and with the tags last. -/
structure AllBothWays
    {α β : Type}
    (Reordered : β → β → Prop)
    (Written : Placement → α → β → Prop)
    (as : List α)
    (bs bs' : List β) : Prop where
  reordered : List.Forall₂ Reordered bs bs'
  first : List.Forall₂ (Written .first) as bs
  last : List.Forall₂ (Written .last) as bs'

theorem AllBothWays.nil
    {α β : Type}
    {Reordered : β → β → Prop}
    {Written : Placement → α → β → Prop} :
    AllBothWays Reordered Written [] [] [] :=
  ⟨.nil, .nil, .nil⟩

theorem AllBothWays.cons
    {α β : Type}
    {Reordered : β → β → Prop}
    {Written : Placement → α → β → Prop}
    {a : α}
    {b b' : β}
    {as : List α}
    {bs bs' : List β}
    (hreordered : Reordered b b')
    (hfirst : Written .first a b)
    (hlast : Written .last a b')
    (h : AllBothWays Reordered Written as bs bs') :
    AllBothWays Reordered Written (a :: as) (b :: bs) (b' :: bs') :=
  ⟨.cons hreordered h.reordered, .cons hfirst h.first, .cons hlast h.last⟩

variable {s : Schema}

/-- The documents that a value has with the tags first and with the tags last. -/
structure BothWays
    (s : Schema)
    (v : Value)
    (d d' : Json) : Prop where
  reordered : d.Reordered d'
  first : Writes s .first v d
  last : Writes s .last v d'

/-- Encoding the value ends alike with both placements, wherever the value stands. -/
def EndsAlike
    (s : Schema)
    (v : Value) : Prop :=
  ∀ path, SameOutcome (BothWays s v) (encodeAt s .first v path) (encodeAt s .last v path)

theorem sameOutcome_encodeItems
    {items : List Value}
    (h : ∀ v ∈ items, EndsAlike s v)
    (path : DocumentPath)
    (index : Nat) :
    SameOutcome (AllBothWays Json.Reordered (Writes s) items)
      (encodeItems s .first items path index) (encodeItems s .last items path index) := by
  induction items generalizing index with
  | nil =>
      simp only [encodeItems]
      exact .ok .nil
  | cons v items ih =>
      simp only [encodeItems]
      refine (h v List.mem_cons_self _).bind fun d d' hd => ?_
      refine (ih (fun w hw => h w (List.mem_cons_of_mem v hw)) (index + 1)).bind ?_
      exact fun ds ds' hds => .ok (.cons hd.reordered hd.first hd.last hds)

theorem sameOutcome_encodePositions
    {slots : List (Option Value)}
    (h : ∀ v, some v ∈ slots → EndsAlike s v)
    (path : DocumentPath)
    {fields : List Field}
    (hlength : fields.length = slots.length)
    (index : Nat) :
    SameOutcome
      (AllBothWays Json.Reordered (fun placement => SlotDocument (Writes s placement)) slots)
      (encodePositions s .first slots path fields index)
      (encodePositions s .last slots path fields index) := by
  induction slots generalizing fields index with
  | nil =>
      simp only [encodePositions]
      exact .ok .nil
  | cons slot slots ih =>
      obtain _ | ⟨f, fields⟩ := fields
      · cases hlength
      · have hrest := ih (fun v hv => h v (List.mem_cons_of_mem slot hv))
          (Nat.succ.inj hlength) (index + 1)
        cases slot with
        | none =>
            simp only [encodePositions]
            cases f.optional with
            | false =>
                exact .error _
            | true =>
                refine hrest.bind fun ds ds' hds => ?_
                exact .ok (.cons (.same .null) .absent .absent hds)
        | some v =>
            simp only [encodePositions]
            refine (h v List.mem_cons_self _).bind fun d d' hd => ?_
            refine hrest.bind fun ds ds' hds => ?_
            exact .ok (.cons hd.reordered (.present hd.first) (.present hd.last) hds)

/-- The entries that keyed values are written as, with the tags first and with the tags last. -/
abbrev EntriesBothWays
    (s : Schema) :
    List (String × Value) → List (String × Json) → List (String × Json) → Prop :=
  AllBothWays (UnderKey Json.Reordered) fun placement => UnderKey (Writes s placement)

theorem BothWays.under
    {v : Value}
    {d d' : Json}
    {values : List (String × Value)}
    {entries entries' : List (String × Json)}
    (h : BothWays s v d d')
    (key : String)
    (hrest : EntriesBothWays s values entries entries') :
    EntriesBothWays s ((key, v) :: values) ((key, d) :: entries) ((key, d') :: entries') :=
  hrest.cons (.intro key h.reordered) (.intro key h.first) (.intro key h.last)

theorem eq_keyText_of_encodeKey
    {key : Value}
    {path : DocumentPath}
    {name : String}
    (h : encodeKey key path = .ok name) :
    name = keyText key := by
  cases key with
  | string text | integer n => exact (Except.ok.inj h).symm
  | boolean | float | any | array | tuple | map | record | enum => cases h

/-- What was in the two objects before is not read, so it may differ. -/
theorem sameOutcome_encodeEntries
    {entries : List (Value × Value)}
    (h : ∀ e ∈ entries, EndsAlike s e.2)
    (path : DocumentPath)
    (object object' : List (String × Json)) :
    SameOutcome
      (fun result result' => ∃ written written',
        result = setAll object written ∧ result' = setAll object' written' ∧
          EntriesBothWays s (keyedEntries entries) written written')
      (encodeEntries s .first entries path object)
      (encodeEntries s .last entries path object') := by
  induction entries generalizing object object' with
  | nil =>
      simp only [encodeEntries]
      exact .ok ⟨[], [], rfl, rfl, .nil⟩
  | cons e entries ih =>
      obtain ⟨key, value⟩ := e
      simp only [encodeEntries]
      refine (SameOutcome.self (encodeKey key path)).bind ?_
      rintro name _ ⟨hname, rfl⟩
      obtain rfl := eq_keyText_of_encodeKey hname
      refine (h (key, value) List.mem_cons_self _).bind fun d d' hd => ?_
      have hrest := ih (fun e he => h e (List.mem_cons_of_mem (key, value) he))
        (Json.insert object (keyText key) d) (Json.insert object' (keyText key) d')
      refine hrest.mono ?_
      rintro result result' ⟨written, written', rfl, rfl, hwritten⟩
      exact ⟨(keyText key, d) :: written, (keyText key, d') :: written', rfl, rfl,
        hd.under (keyText key) hwritten⟩

/-- Fields with keys of their own, none of them in use, are written at the end and in their order,
after whatever stands in the two objects. -/
theorem sameOutcome_encodeFields
    {slots : List (Option Value)}
    (h : ∀ v, some v ∈ slots → EndsAlike s v)
    (path : DocumentPath)
    {fields : List Field}
    (hnodup : (fields.map (·.jsonName)).Nodup)
    (before before' : List (String × Json))
    (hfresh : ∀ f ∈ fields, f.jsonName ∉ before.map Prod.fst)
    (hfresh' : ∀ f ∈ fields, f.jsonName ∉ before'.map Prod.fst) :
    SameOutcome
      (fun result result' => ∃ payload payload',
        result = before ++ payload ∧ result' = before' ++ payload' ∧
          EntriesBothWays s (keyedSlots fields slots) payload payload')
      (encodeFields s .first slots path fields before)
      (encodeFields s .last slots path fields before') := by
  induction slots generalizing fields before before' with
  | nil =>
      simp only [encodeFields]
      exact .ok ⟨[], [], by simp, by simp, by cases fields <;> exact .nil⟩
  | cons slot slots ih =>
      have hinner := fun v hv => h v (List.mem_cons_of_mem slot hv)
      cases fields with
      | nil =>
          simp only [encodeFields]
          exact .ok ⟨[], [], by simp, by simp, .nil⟩
      | cons f fields =>
          obtain ⟨hf, hnodup⟩ := List.nodup_cons.mp hnodup
          cases slot with
          | none =>
              simp only [encodeFields]
              cases f.optional with
              | false =>
                  exact .error _
              | true =>
                  exact ih hinner hnodup before before'
                    (fun g hg => hfresh g (List.mem_cons_of_mem f hg))
                    (fun g hg => hfresh' g (List.mem_cons_of_mem f hg))
          | some v =>
              simp only [encodeFields]
              refine (h v List.mem_cons_self _).bind fun d d' hd => ?_
              -- The key of the field joins the keys in use; the other fields have other keys.
              have hstep : ∀ {object : List (String × Json)} (document : Json),
                  (∀ g ∈ f :: fields, g.jsonName ∉ object.map Prod.fst) →
                  ∀ g ∈ fields,
                    g.jsonName ∉ (object ++ [(f.jsonName, document)]).map Prod.fst := by
                intro object document hobject g hg hmem
                rw [List.map_append, List.mem_append] at hmem
                rcases hmem with hmem | hmem
                · exact hobject g (List.mem_cons_of_mem f hg) hmem
                · exact hf (List.mem_map.mpr ⟨g, hg, List.mem_singleton.mp hmem⟩)
              rw [Json.insert_of_notMem (hfresh f List.mem_cons_self),
                Json.insert_of_notMem (hfresh' f List.mem_cons_self)]
              refine (ih hinner hnodup _ _ (hstep d hfresh) (hstep d' hfresh')).mono ?_
              rintro result result' ⟨payload, payload', rfl, rfl, hpayload⟩
              exact ⟨(f.jsonName, d) :: payload, (f.jsonName, d') :: payload', by simp, by simp,
                hd.under f.jsonName hpayload⟩

end Runs

section Records

theorem length_eq_of_checkArity
    {expected found : Nat}
    {path : DocumentPath}
    (h : checkArity expected found path = .ok ()) :
    expected = found := by
  unfold checkArity at h
  by_cases heq : expected = found
  · exact heq
  · rw [if_neg heq] at h
    cases h

variable {s : Schema}
variable {id : DeclId}
variable {slots : List (Option Value)}

/-- A record whose shape the declaration does not have fails before any slot is read. -/
theorem layout_of_recordFields?_eq_none
    {subType : Option Nat}
    (h : s.recordFields? id subType = none) :
    ∃ message, ∀ placement path, layout s placement id subType path = invalid path message := by
  have hshape (hlayout : ∀ placement path, layout s placement id subType path =
      invalid path s!"value does not have the shape of `{s.displayName id}`") :
      ∃ message, ∀ placement path, layout s placement id subType path = invalid path message :=
    ⟨_, hlayout⟩
  cases hbody : (s.decl id).body with
  | type fields =>
      cases subType with
      | none => simp [Schema.recordFields?, hbody] at h
      | some index => exact hshape fun placement path => by simp only [layout, hbody]
  | tuple fields =>
      cases subType with
      | none => simp [Schema.recordFields?, hbody] at h
      | some index => exact hshape fun placement path => by simp only [layout, hbody]
  | interface body =>
      cases subType with
      | none => exact hshape fun placement path => by simp only [layout, hbody]
      | some index =>
          have hmissing : body.subTypes[index]? = none := by
            simpa [Schema.recordFields?, hbody] using h
          exact ⟨s!"`{s.displayName id}` has no sub-type #{index}", fun placement path => by
            simp only [layout, hbody, hmissing]⟩
  | enum type members =>
      exact hshape fun placement path => by simp only [layout, hbody]
  | service endpoints =>
      exact hshape fun placement path => by simp only [layout, hbody]

variable (hslots : ∀ v, some v ∈ slots → EndsAlike s v)

include hslots

theorem endsAlike_tuple
    {fields : List Field}
    (hbody : (s.decl id).body = .tuple fields) :
    EndsAlike s (.record id none slots) := by
  intro path
  simp only [encodeAt, layout, hbody, ok_bind]
  refine (SameOutcome.self (checkArity fields.length slots.length path)).bind ?_
  rintro _ _ ⟨harity, -⟩
  have hlength : fields.length = slots.length := length_eq_of_checkArity harity
  refine (sameOutcome_encodePositions hslots path hlength 0).bind fun ds ds' hds => ?_
  exact .ok ⟨.array hds.reordered, .positions hbody hds.first, .positions hbody hds.last⟩

theorem endsAlike_type
    (hs : s.WellFormed)
    {fields : List Field}
    (hbody : (s.decl id).body = .type fields) :
    EndsAlike s (.record id none slots) := by
  intro path
  have hwf := (hs.decl id).body
  rw [hbody] at hwf
  simp only [encodeAt, layout, hbody, ok_bind]
  refine (SameOutcome.self (checkArity fields.length slots.length path)).bind fun _ _ _ => ?_
  refine (sameOutcome_encodeFields hslots path hwf.jsonNames [] [] (by simp) (by simp)).bind ?_
  rintro payload payload' ⟨_, _, rfl, rfl, hpayload⟩
  exact .ok ⟨.object hpayload.reordered (.refl payload'), .fields hbody hpayload.first,
    .fields hbody hpayload.last⟩

/-- The tag is a new key in both runs, since it is the key of no field. -/
theorem endsAlike_case
    (hs : s.WellFormed)
    {body : InterfaceBody}
    (hbody : (s.decl id).body = .interface body)
    {index : Nat}
    {c : SubType}
    (hc : body.subTypes[index]? = some c) :
    EndsAlike s (.record id (some index) slots) := by
  intro path
  have hwf := (hs.decl id).body
  rw [hbody] at hwf
  have hnodup := (hwf.cases c (List.mem_of_getElem? hc)).jsonNames
  simp only [encodeAt, layout, hbody, hc, caseLayout, ok_bind]
  cases hstrategy : body.strategy with
  | untagged =>
      simp only
      refine (SameOutcome.self (checkArity _ slots.length path)).bind fun _ _ _ => ?_
      refine (sameOutcome_encodeFields hslots path hnodup [] [] (by simp) (by simp)).bind ?_
      rintro payload payload' ⟨_, _, rfl, rfl, hpayload⟩
      exact .ok ⟨.object hpayload.reordered (.refl payload'),
        .untagged hbody hc hstrategy hpayload.first, .untagged hbody hc hstrategy hpayload.last⟩
  | tagged tag =>
      have htag : ∀ f ∈ body.fieldsOf c, f.jsonName ≠ tag := fun f hf =>
        hwf.tag tag hstrategy f (InterfaceBody.mem_fields_of_mem_fieldsOf hc hf)
      simp only
      refine (SameOutcome.self (checkArity _ slots.length path)).bind fun _ _ _ => ?_
      refine (sameOutcome_encodeFields hslots path hnodup [(tag, .string c.literal)] []
        (by simpa using htag) (by simp)).bind ?_
      rintro _ payload' ⟨payload, _, rfl, rfl, hpayload⟩
      have hnew : tag ∉ payload'.map Prod.fst := by
        rw [← keys_eq_of_underKey hpayload.last]
        intro hmem
        obtain ⟨f, hf, rfl⟩ := exists_field_of_mem_keyedSlots hmem
        exact htag f hf rfl
      rw [Json.insert_of_notMem hnew]
      refine .ok ⟨.object (.cons (.intro tag (.same _)) hpayload.reordered)
        (List.perm_append_singleton _ payload').symm, ?_, ?_⟩
      · exact .tagged hbody hc hstrategy hpayload.first
      · exact .tagged hbody hc hstrategy hpayload.last

theorem endsAlike_record
    (hs : s.WellFormed)
    (subType : Option Nat) :
    EndsAlike s (.record id subType slots) := by
  cases hfields : s.recordFields? id subType with
  | none =>
      obtain ⟨message, hlayout⟩ := layout_of_recordFields?_eq_none hfields
      intro path
      simp only [encodeAt, hlayout]
      exact .error _
  | some fields =>
      rcases Schema.recordFields?_cases hfields with
        ⟨hbody, rfl⟩ | ⟨hbody, rfl⟩ | ⟨body, index, c, hbody, rfl, hc, -⟩
      · exact endsAlike_type hslots hs hbody
      · exact endsAlike_tuple hslots hbody
      · exact endsAlike_case hslots hs hbody hc

end Records

section Values

variable {s : Schema}

/-- A run that does not read the placement ends alike. -/
theorem endsAlike_of_eq
    {v : Value}
    {run : DocumentPath → Except EncodeError Json}
    (hrun : ∀ placement path, encodeAt s placement v path = run path)
    (hwrites : ∀ path d, run path = .ok d → ∀ placement, Writes s placement v d) :
    EndsAlike s v := by
  intro path
  rw [hrun .first, hrun .last]
  refine (SameOutcome.self (run path)).mono ?_
  rintro d _ ⟨hd, rfl⟩
  exact ⟨.same d, hwrites path d hd .first, hwrites path d hd .last⟩

theorem endsAlike_of_ok
    {v : Value}
    {document : Json}
    (hrun : ∀ placement path, encodeAt s placement v path = .ok document)
    (hwrites : ∀ placement, Writes s placement v document) :
    EndsAlike s v :=
  endsAlike_of_eq hrun fun _ _ hd => Except.ok.inj hd ▸ hwrites

theorem eq_integer_of_encodeInteger
    {n : Int}
    {path : DocumentPath}
    {d : Json}
    (h : encodeInteger n path = .ok d) :
    d = .integer n := by
  unfold encodeInteger at h
  split at h
  · exact (Except.ok.inj h).symm
  · cases h

theorem eq_float_of_encodeDouble
    {value : Decimal.Double}
    {path : DocumentPath}
    {d : Json}
    (h : encodeDouble value path = .ok d) :
    d = .float value := by
  unfold encodeDouble at h
  split at h
  · exact (Except.ok.inj h).symm
  · cases h

theorem writes_enum_of_encodeMember
    {id : DeclId}
    {member : Nat}
    {path : DocumentPath}
    {d : Json}
    (h : encodeMember s id member path = .ok d)
    (placement : Placement) :
    Writes s placement (.enum id member) d := by
  unfold encodeMember at h
  cases hbody : (s.decl id).body with
  | type | tuple | interface | service =>
      rw [hbody] at h
      cases h
  | enum valueType members =>
      simp only [hbody] at h
      cases hm : members[member]? with
      | none =>
          rw [hm] at h
          cases h
      | some m =>
          have hwrites : Writes s placement (.enum id member) (memberDocument m.value) :=
            .enum hbody hm
          simp only [hm] at h
          cases hvalue : m.value with
          | string text =>
              rw [hvalue] at h hwrites
              obtain rfl := Except.ok.inj h
              exact hwrites
          | number n =>
              rw [hvalue] at h hwrites
              obtain rfl := eq_integer_of_encodeInteger h
              exact hwrites

/-- Encoding a value with the tags first and with the tags last ends alike. -/
theorem endsAlike
    (hs : s.WellFormed)
    (v : Value) :
    EndsAlike s v := by
  induction v using Value.innerInduction with
  | step v ih =>
      cases v with
      | boolean b =>
          exact endsAlike_of_ok (fun _ _ => by rw [encodeAt]) fun _ => .boolean b
      | string text =>
          exact endsAlike_of_ok (fun _ _ => by rw [encodeAt]) fun _ => .string text
      | any document =>
          exact endsAlike_of_ok (fun _ _ => by rw [encodeAt]) fun _ => .any document
      | integer n =>
          refine endsAlike_of_eq (fun _ _ => by rw [encodeAt]) fun path d hd _ => ?_
          obtain rfl := eq_integer_of_encodeInteger hd
          exact .integer n
      | float value =>
          refine endsAlike_of_eq (fun _ _ => by rw [encodeAt]) fun path d hd _ => ?_
          obtain rfl := eq_float_of_encodeDouble hd
          exact .float value
      | enum id member =>
          exact endsAlike_of_eq (fun _ _ => by rw [encodeAt]) fun _ _ => writes_enum_of_encodeMember
      | array items =>
          intro path
          simp only [encodeAt]
          refine (sameOutcome_encodeItems ih path 0).bind fun ds ds' hds => ?_
          exact .ok ⟨.array hds.reordered, .array hds.first, .array hds.last⟩
      | tuple items =>
          intro path
          simp only [encodeAt]
          refine (sameOutcome_encodeItems ih path 0).bind fun ds ds' hds => ?_
          exact .ok ⟨.array hds.reordered, .tuple hds.first, .tuple hds.last⟩
      | map entries =>
          intro path
          have hvalues : ∀ e ∈ entries, EndsAlike s e.2 := fun e he =>
            ih e.2 (List.mem_append_right _ (List.mem_map_of_mem he))
          simp only [encodeAt]
          refine (sameOutcome_encodeEntries hvalues path [] []).bind ?_
          rintro _ _ ⟨written, written', rfl, rfl, hwritten⟩
          exact .ok ⟨.object (setAll_underKey .nil hwritten.reordered) (.refl _),
            .map hwritten.first, .map hwritten.last⟩
      | record id subType slots =>
          refine endsAlike_record (fun v hv => ih v ?_) hs subType
          exact List.mem_filterMap.mpr ⟨some v, hv, rfl⟩

end Values

/-- Writing tags first or last changes the order of keys only: both runs fail with one error, or
both succeed, each with the tags in their place and with the fields in the order of the
declaration. -/
theorem encode_placement
    {options : ResolveOptions}
    {files : List SourceFile}
    {r : Resolved}
    (h : resolve options files = .ok r)
    (v : Value) :
    (∃ e, encode r.schema .first v = .error e ∧ encode r.schema .last v = .error e) ∨
      ∃ d d', encode r.schema .first v = .ok d ∧ encode r.schema .last v = .ok d' ∧
        d.Reordered d' ∧ Writes r.schema .first v d ∧ Writes r.schema .last v d' := by
  have hs := (Resolve.resolvedFrom_of_resolve h).wellFormed
  have halike := endsAlike hs v []
  unfold encode
  generalize encodeAt r.schema .first v [] = first at halike ⊢
  generalize encodeAt r.schema .last v [] = last at halike ⊢
  cases halike with
  | error e => exact .inl ⟨e, rfl, rfl⟩
  | @ok d d' hways => exact .inr ⟨d, d', rfl, rfl, hways.reordered, hways.first, hways.last⟩

end Codec

namespace Sample

/-- A file with a tagged interface: a node has a number, and holds text or other nodes. -/
def nodes : SourceFile :=
  { file := 0
    identity := ⟨⟨["nodes"]⟩, none⟩
    tree :=
      { doc := []
        imports := []
        decls :=
          [⟨[], [], ⟨"Node", default⟩,
            .interface [field "id" false (.primitive .u32)]
              [⟨[], ⟨"Leaf", default⟩, none, [field "text" true (.primitive .string)], default⟩,
                ⟨[], ⟨"Inner", default⟩, none,
                  [field "nodes" false (.array (.name ⟨none, ["Node"], default⟩))], default⟩],
            default⟩] } }

/-- The schema of the file. -/
def nodesSchema : Schema :=
  ⟨[{ identity := ⟨⟨["nodes"]⟩, none⟩
      ns := ⟨["nodes"], none⟩
      doc := []
      decls :=
        [⟨⟨0, 0⟩, "Node", [], none, [],
          .interface
            { fields := [⟨"id", "id", .primitive .u32, false, [], default⟩]
              subTypes :=
                [⟨"Leaf", "Leaf", [], [⟨"text", "text", .primitive .string, true, [], default⟩],
                    default⟩,
                  ⟨"Inner", "Inner", [],
                    [⟨"nodes", "nodes", .array (.decl ⟨0, 0⟩), false, [], default⟩], default⟩]
              strategy := .tagged "type" },
          default⟩]
      roots := [0] }]⟩

theorem resolve_nodes :
    resolve options [nodes] = .ok ⟨nodesSchema, []⟩ := by
  with_unfolding_all rfl

/-- A node that holds a leaf without text. -/
def innerNode : Value :=
  .record ⟨0, 0⟩ (some 1)
    [some (.integer 1), some (.array [.record ⟨0, 0⟩ (some 0) [some (.integer 2), none]])]

/-- Its document with the tags first, and with the tags last. -/
theorem encode_innerNode :
    Codec.encode nodesSchema .first innerNode =
        .ok (.object [("type", .string "Inner"), ("id", .integer 1),
          ("nodes", .array [.object [("type", .string "Leaf"), ("id", .integer 2)]])]) ∧
      Codec.encode nodesSchema .last innerNode =
        .ok (.object [("id", .integer 1),
          ("nodes", .array [.object [("id", .integer 2), ("type", .string "Leaf")]]),
          ("type", .string "Inner")]) := by
  constructor <;> rfl

end Sample

theorem encode_placement_nodes :
    ∃ d d', Codec.encode Sample.nodesSchema .first Sample.innerNode = .ok d ∧
      Codec.encode Sample.nodesSchema .last Sample.innerNode = .ok d' ∧ d.Reordered d' := by
  obtain ⟨e, herror, -⟩ | ⟨d, d', hd, hd', hreordered, -, -⟩ :=
    Codec.encode_placement Sample.resolve_nodes Sample.innerNode
  · rw [Sample.encode_innerNode.1] at herror
    cases herror
  · exact ⟨d, d', hd, hd', hreordered⟩

end Schemata
