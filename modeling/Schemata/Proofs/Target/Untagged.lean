import Schemata.Proofs.Codec.Content
import Schemata.Proofs.Emit.Code
import Schemata.Proofs.Target.Condition
import Schemata.Target.CSharp
import Schemata.Target.JavaScript
import Schemata.Target.Swift

/-!
# Which case generated code reads

The codec reads an object as the first case of an untagged interface whose
required keys are all present and not null.  In generated code this choice is a
method with one block for each case, in their order: JavaScript asks for keys
with values, C# and Swift ask for keys only.  So JavaScript always reads the
case that the codec reads.  C# and Swift read the first case whose required
keys are there, which is the same case unless one of these keys is null.

**Results.**
* `dispatch_declCode`, `dispatch_extensions`: the case that the method of each
  language reads.
* `InterfaceBody.firstCase?_hasKey_eq_iff`: when keys alone tell the case.
* `untagged_dispatch`: the codec and the three languages side by side.
* `exists_null_dispatch`: an object that they read as different cases.
-/

namespace Schemata

namespace Json

/-- The document is null. -/
def isNull : Json → Bool
  | null => true
  | _ => false

/-- The object has a key. -/
def hasKey
    (entries : List (String × Json))
    (key : String) :
    Bool :=
  (entries.lookup key).isSome

/-- The object has a key with a value that is not null. -/
def hasValue
    (entries : List (String × Json))
    (key : String) :
    Bool :=
  (entries.lookup key).any (!·.isNull)

theorem hasValue_iff
    {entries : List (String × Json)}
    {key : String} :
    hasValue entries key = true ↔
      ∃ document, entries.lookup key = some document ∧ document ≠ .null := by
  have hnull : ∀ document : Json, (!document.isNull) = true ↔ document ≠ .null := by
    intro document
    cases document <;> simp [isNull]
  simp only [hasValue, Option.any_eq_true, hnull]

/-- A key has a value exactly when it is there and is not null. -/
theorem hasValue_iff_hasKey
    {entries : List (String × Json)}
    {key : String} :
    hasValue entries key = true ↔
      hasKey entries key = true ∧ entries.lookup key ≠ some .null := by
  rw [hasValue_iff, hasKey]
  cases entries.lookup key with
  | none => simp
  | some document => simp

end Json

/-- The first item that passes the weaker of two tests is the first that passes the stronger one
exactly when it passes that too. -/
theorem Codec.findIdx?_eq_iff
    {α : Type}
    {p q : α → Bool}
    (himp : ∀ a, q a = true → p a = true)
    (as : List α) :
    as.findIdx? p = as.findIdx? q ↔
      ∀ index a, as.findIdx? p = some index → as[index]? = some a → q a = true := by
  induction as with
  | nil =>
      simp
  | cons a as ih =>
      rw [List.findIdx?_cons, List.findIdx?_cons]
      by_cases hp : p a = true
      · -- Both tests stop at the first item, or the stronger one goes on.
        rw [if_pos hp]
        constructor
        · intro heq index b hindex hb
          obtain rfl := Option.some.inj hindex
          obtain rfl := Option.some.inj hb
          by_contra hq
          rw [if_neg hq] at heq
          simp [eq_comm] at heq
        · intro h
          rw [if_pos (h 0 a rfl rfl)]
      · have hq : ¬ q a = true := fun hq => hp (himp a hq)
        rw [if_neg hp, if_neg hq, (Option.map_injective (add_left_injective 1)).eq_iff, ih]
        constructor
        · intro h index b hindex hb
          obtain ⟨before, hbefore, rfl⟩ := Option.map_eq_some_iff.mp hindex
          exact h before b hbefore hb
        · intro h index b hindex hb
          exact h (index + 1) b (Option.map_eq_some_iff.mpr ⟨index, hindex, rfl⟩) hb

namespace InterfaceBody

variable (body : InterfaceBody)

/-- The first case of which all required keys pass a test. -/
def firstCase?
    (passes : String → Bool) :
    Option Nat :=
  body.subTypes.findIdx? fun c => (Untagged.requiredKeys body c).all passes

/-- The case that the codec reads is the first one whose required keys have values. -/
theorem untaggedCase?_eq_firstCase?
    (s : Schema)
    (entries : List (String × Json)) :
    Codec.untaggedCase? body (Codec.viewEntries s entries) =
      body.firstCase? (Json.hasValue entries) := by
  have hpresent : ∀ key, (Codec.present? (Codec.viewEntries s entries) key).isSome =
      Json.hasValue entries key := by
    intro key
    rw [Bool.eq_iff_iff, Codec.isSome_present?_iff, Json.hasValue_iff]
  have hrequired : Codec.hasRequired body (Codec.viewEntries s entries) =
      fun c => (Untagged.requiredKeys body c).all (Json.hasValue entries) := by
    funext c
    simp only [Codec.hasRequired, Untagged.requiredKeys, List.all_map, Function.comp_def, hpresent]
  rw [Codec.untaggedCase?, firstCase?, hrequired]

variable {body}

/-- Keys alone tell the same case exactly when no required key of the case that they tell is
null. -/
theorem firstCase?_hasKey_eq_iff
    (entries : List (String × Json)) :
    body.firstCase? (Json.hasKey entries) = body.firstCase? (Json.hasValue entries) ↔
      ∀ index c, body.firstCase? (Json.hasKey entries) = some index →
        body.subTypes[index]? = some c →
          ∀ key ∈ Untagged.requiredKeys body c, entries.lookup key ≠ some .null := by
  have himp : ∀ c, (Untagged.requiredKeys body c).all (Json.hasValue entries) = true →
      (Untagged.requiredKeys body c).all (Json.hasKey entries) = true := by
    intro c hvalues
    rw [List.all_eq_true] at hvalues ⊢
    exact fun key hkey => (Json.hasValue_iff_hasKey.mp (hvalues key hkey)).1
  rw [firstCase?, firstCase?, Codec.findIdx?_eq_iff himp]
  refine forall₄_congr fun index c hindex hc => ?_
  -- The case that the keys tell has all of them, so a value is all that may be missing.
  have hkeys : (Untagged.requiredKeys body c).all (Json.hasKey entries) = true := by
    have hfound := List.of_findIdx?_eq_some hindex
    rwa [hc] at hfound
  rw [List.all_eq_true] at hkeys ⊢
  refine forall₂_congr fun key hkey => ?_
  rw [Json.hasValue_iff_hasKey]
  exact and_iff_right (hkeys key hkey)

end InterfaceBody

namespace Target

open Code
open ConditionForm (Outcome outcome)

namespace JavaScript

/-- The form of the condition of a case. -/
def conditionForm : ConditionForm :=
  .calls "_present(data, " (by decide)

theorem text_conditionForm
    (keys : List String) :
    conditionForm.text keys = s!"if ({caseCondition keys})" ++ " \x7b" :=
  ConditionForm.text_calls _ _ keys

/-- The method that reads a class from a document, in the code of a declaration. -/
def decodeMethod?
    (code : Code) :
    Option Code :=
  code.firstBlock?.bind (inside? "static decode(data) \x7b")

/-- The outcome of reading an object by the code of a declaration. -/
def dispatch
    (code : Code)
    (entries : List (String × Json)) :
    Option Outcome :=
  (decodeMethod? code).bind fun method =>
    conditionForm.run (Json.hasValue entries) 0 method.statements

/-- The statement that reads a case. -/
def caseRead
    (s : Schema)
    (id : DeclId)
    (c : SubType) :
    Code :=
  line s!"return {classPath s id}.{typeIdent c.name}.decode(data);"

/-- The statement that ends the method if no case is found. -/
def noCase
    (s : Schema)
    (id : DeclId) :
    String :=
  "throw new Error("
    ++ Text.literal (s.displayName id ++ ": no sub-type matches the fields present") ++ ");"

section Method

variable {s : Schema}
variable {id : DeclId}
variable {body : InterfaceBody}

theorem statements_decodeInterface
    (huntagged : body.strategy = .untagged) :
    statements (decodeInterface s id body) =
      body.subTypes.map (fun c =>
        conditionForm.branch (Untagged.requiredKeys body c) (caseRead s id c)) ++
        [Statement.line (noCase s id)] := by
  simp only [decodeInterface, huntagged]
  refine statements_flatMap (fun c rest => ?_) body.subTypes (line (noCase s id))
  rw [ConditionForm.branch, text_conditionForm]
  rfl

theorem decodeMethod?_declCode
    (hbody : (s.decl id).body = .interface body)
    (placement : Placement) :
    decodeMethod? (declCode s placement id) =
      some (line s!"_object({Text.literal (typeIdent (s.decl id).name)}, data);" ++ blank
        ++ decodeInterface s id body) := by
  -- An outermost class is exported and a nested one is assigned; either is one block.
  have hclass : ∀ members rest, (classCode s id members ++ rest).Flush ∧
      (classCode s id members ++ rest).firstBlock? = some members := by
    intro members rest
    unfold classCode
    cases (s.decl id).parent with
    | none => exact ⟨flush_line _ _, rfl⟩
    | some parent => exact ⟨flush_line _ _, rfl⟩
  obtain ⟨hflush, hfirst⟩ := hclass (interfaceMembers s id (typeIdent (s.decl id).name) body)
    (body.subTypes.flatMap (caseCode s placement id body))
  have hcode : (declCode s placement id).firstBlock? =
      some (interfaceMembers s id (typeIdent (s.decl id).name) body) := by
    rw [← hfirst, ← firstBlock?_doc "//" (s.decl id).doc hflush]
    simp only [declCode, hbody]
    rfl
  rw [decodeMethod?, hcode]
  rfl

/-- The method reads the first case whose required keys have values. -/
theorem dispatch_declCode
    (hbody : (s.decl id).body = .interface body)
    (huntagged : body.strategy = .untagged)
    (placement : Placement)
    (entries : List (String × Json)) :
    dispatch (declCode s placement id) entries =
      outcome (body.subTypes.map (caseRead s id)) (noCase s id)
        (body.firstCase? (Json.hasValue entries)) := by
  rw [dispatch, decodeMethod?_declCode hbody, Option.bind_some, List.append_assoc,
    statements_line (flush_blank _), statements_blank, statements_decodeInterface huntagged]
  refine conditionForm.run_method (Json.hasValue entries)
    (List.forall_mem_singleton.mpr ?_) _ _ _ ?_
  · simp only [ConditionForm.isThrow, String.toList_append]
    rfl
  · exact ConditionForm.isThrow_append (ConditionForm.isThrow_append (by decide) _) _

end Method

end JavaScript

namespace CSharp

/-- The form of the condition of a case. -/
def conditionForm : ConditionForm :=
  .calls "o.ContainsKey(" (by decide)

theorem text_conditionForm
    (keys : List String) :
    conditionForm.text keys = s!"if ({caseCondition keys})" ++ " \x7b" :=
  ConditionForm.text_calls _ _ keys

/-- The method that reads a class from a document, in the code of a declaration. -/
def decodeMethod?
    (code : Code) :
    Option Code :=
  (code.firstBlock?.bind (inside? (converterHeader ++ " \x7b"))).bind
    (inside? (readHeader ++ " \x7b"))

/-- The outcome of reading an object by the code of a declaration. -/
def dispatch
    (code : Code)
    (entries : List (String × Json)) :
    Option Outcome :=
  (decodeMethod? code).bind fun method =>
    conditionForm.run (Json.hasKey entries) 0 method.statements

/-- The statements that read a case. -/
def caseRead
    (s : Schema)
    (id : DeclId)
    (c : SubType) :
    Code :=
  line "_isInsideRead = true;"
    ++ twoBlocks "try"
        (line <| "return serializer.Deserialize(o.CreateReader(), "
          ++ s!"typeof({classPath s id}.{typeIdent c.name}));")
        "finally" (line "_isInsideRead = false;")

/-- The statement that ends the method if no case is found. -/
def noCase : String :=
  "throw new InvalidOperationException("
    ++ Text.literal "no sub-type matches the fields present" ++ ");"

section Method

variable {s : Schema}
variable {id : DeclId}
variable {body : InterfaceBody}

theorem decodeMethod?_declCode
    (hbody : (s.decl id).body = .interface body)
    (huntagged : body.strategy = .untagged)
    (placement : Placement)
    (inner : List Code) :
    decodeMethod? (declCode s placement id inner) =
      some (line "JObject o = JObject.Load(reader);"
        ++ body.subTypes.flatMap (readCase (classPath s id) body) ++ blank ++ line noCase) := by
  have hcode : (declCode s placement id inner).firstBlock? =
      some (untaggedConverter (classPath s id) body
        ++ body.subTypes.flatMap (caseClass s id.package (typeIdent (s.decl id).name) body)
        ++ inner.flatMap (blank ++ ·)) := by
    simp only [declCode, hbody, huntagged]
    exact firstBlock?_doc "///" (s.decl id).doc (flush_line _ _)
  rw [decodeMethod?, hcode]
  -- All headers of the converter are fixed texts, so the search for the method evaluates.
  rfl

theorem statements_readCases
    (rest : Code) :
    statements (body.subTypes.flatMap (readCase (classPath s id) body) ++ rest) =
      body.subTypes.map (fun c =>
        conditionForm.branch (Untagged.requiredKeys body c) (caseRead s id c)) ++
        statements rest := by
  refine statements_flatMap (fun c rest => ?_) body.subTypes rest
  rw [ConditionForm.branch, text_conditionForm]
  rfl

/-- The method reads the first case whose required keys are there. -/
theorem dispatch_declCode
    (hbody : (s.decl id).body = .interface body)
    (huntagged : body.strategy = .untagged)
    (placement : Placement)
    (inner : List Code)
    (entries : List (String × Json)) :
    dispatch (declCode s placement id inner) entries =
      outcome (body.subTypes.map (caseRead s id)) noCase
        (body.firstCase? (Json.hasKey entries)) := by
  have hcase : ∀ c rest, Flush (readCase (classPath s id) body c ++ rest) :=
    fun c rest => flush_blank _
  have hflush := flush_flatMap hcase body.subTypes (flush_blank (line noCase))
  rw [dispatch, decodeMethod?_declCode hbody huntagged, Option.bind_some, List.append_assoc,
    List.append_assoc, statements_line hflush, statements_readCases]
  exact conditionForm.run_method (Json.hasKey entries)
    (List.forall_mem_singleton.mpr (by decide)) _ _ _
    (ConditionForm.isThrow_append (ConditionForm.isThrow_append (by decide) _) _)

end Method

end CSharp

namespace Swift

/-- The form of the condition of a case. -/
def conditionForm : ConditionForm :=
  { opening := "if keys.isSuperset(of: ["
    nothing := ""
    before := ""
    after := ""
    separator := ", "
    closing := "] as [String]) \x7b"
    separator_apart := by decide
    nothing_apart := by decide }

theorem text_conditionForm
    (keys : List String) :
    conditionForm.text keys = "if " ++ caseCondition keys ++ " \x7b" := by
  have hopening : conditionForm.opening = "if " ++ "keys.isSuperset(of: [" := by decide
  have hclosing : conditionForm.closing = "] as [String])" ++ " \x7b" := by decide
  have htest : conditionForm.test = Text.literal := by
    funext key
    exact String.append_empty.trans String.empty_append
  have hlist : (if keys.isEmpty then conditionForm.nothing
      else String.intercalate conditionForm.separator (keys.map conditionForm.test)) =
        String.intercalate ", " (keys.map Text.literal) := by
    rw [htest]
    cases keys with
    | nil => rfl
    | cons key keys => rfl
  have hcondition : caseCondition keys = "keys.isSuperset(of: ["
      ++ String.intercalate ", " (keys.map Text.literal) ++ "] as [String])" := rfl
  rw [ConditionForm.text, hlist, hopening, hclosing, hcondition]
  simp only [String.append_assoc]

/-- The method that reads a type from a document, in the extensions of a declaration. -/
def decodeMethod?
    (name : String)
    (code : Code) :
    Option Code :=
  code.firstBlock?.bind (inside? s!"static func decode(json: Any) throws -> {name} \x7b")

/-- The outcome of reading an object by the extensions of a declaration. -/
def dispatch
    (name : String)
    (code : Code)
    (entries : List (String × Json)) :
    Option Outcome :=
  (decodeMethod? name code).bind fun method =>
    conditionForm.run (Json.hasKey entries) 0 method.statements

/-- The statements that read the cases. -/
def caseReads
    (s : Schema)
    (id : DeclId)
    (body : InterfaceBody) :
    List Code :=
  (body.subTypes.zip (caseNames body)).map fun named =>
    line s!"return {decodeCase s id named.1 named.2}"

/-- The statement that ends the method if no case is found. -/
def noCase : String :=
  "throw SerializationError.invalid(\x22no sub-type matches the fields present\x22)"

section Method

variable {s : Schema}
variable {id : DeclId}
variable {body : InterfaceBody}

theorem statements_decodeInterface
    (huntagged : body.strategy = .untagged) :
    statements (decodeInterface s id body) =
      [Statement.line "let keys = Set(json.keys)"] ++
        ((body.subTypes.zip (caseNames body)).map (fun named =>
          conditionForm.branch (Untagged.requiredKeys body named.1)
            (line s!"return {decodeCase s id named.1 named.2}")) ++
          [Statement.line noCase]) := by
  simp only [decodeInterface, huntagged]
  rw [List.append_assoc, List.append_assoc, statements_line, statements_flatMap]
  · rfl
  · intro named rest
    rw [ConditionForm.branch, text_conditionForm]
    rfl
  · refine flush_flatMap (fun named rest => ?_) _ (flush_blank _)
    exact flush_blank _

theorem decodeMethod?_extensions
    (hbody : (s.decl id).body = .interface body) :
    decodeMethod? (qualified s id) (extensions s id) =
      some (line "let json = try decode_value(json as? [String: Any])" ++ blank
        ++ decodeInterface s id body) := by
  have hcode : (extensions s id).firstBlock? = some
      (block s!"static func decode(json: Any) throws -> {qualified s id}"
          (line "let json = try decode_value(json as? [String: Any])" ++ blank
            ++ decodeInterface s id body)
        ++ blank
        ++ block "func encode() throws -> [String: Any]"
            (block "switch self"
              ((body.subTypes.zip (caseNames body)).flatMap fun named =>
                encodeCase body.strategy named.1 named.2))) := by
    simp only [extensions, hbody]
    rfl
  rw [decodeMethod?, hcode, Option.bind_some, List.append_assoc]
  exact inside?_block _ _ _

theorem length_caseNames
    (body : InterfaceBody) :
    (caseNames body).length = body.subTypes.length := by
  rw [caseNames, List.length_map, Naming.Language.length_spellAll, List.length_map]

theorem findIdx?_zip_caseNames
    (p : SubType → Bool) :
    ((body.subTypes.zip (caseNames body)).findIdx? fun named => p named.1) =
      body.subTypes.findIdx? p := by
  have hfst := List.map_fst_zip (Nat.le_of_eq (length_caseNames body).symm)
  conv => rhs; rw [← hfst, List.findIdx?_map]
  rfl

/-- The method reads the first case whose required keys are there. -/
theorem dispatch_extensions
    (hbody : (s.decl id).body = .interface body)
    (huntagged : body.strategy = .untagged)
    (entries : List (String × Json)) :
    dispatch (qualified s id) (extensions s id) entries =
      outcome (caseReads s id body) noCase (body.firstCase? (Json.hasKey entries)) := by
  have hlines : ∀ text ∈ ["let json = try decode_value(json as? [String: Any])",
      "let keys = Set(json.keys)"], ConditionForm.isThrow text = false := by
    simp [ConditionForm.isThrow, Text.stripPrefix?]
  have hfailure : ConditionForm.isThrow noCase = true := by
    simp [ConditionForm.isThrow, Text.stripPrefix?, noCase]
  rw [dispatch, decodeMethod?_extensions hbody, Option.bind_some, List.append_assoc,
    statements_line (flush_blank _), statements_blank, statements_decodeInterface huntagged]
  have hrun := conditionForm.run_method (Json.hasKey entries) hlines
    (fun named => Untagged.requiredKeys body named.1)
    (fun named => line s!"return {decodeCase s id named.1 named.2}")
    (body.subTypes.zip (caseNames body)) hfailure
  rw [findIdx?_zip_caseNames fun c => (Untagged.requiredKeys body c).all (Json.hasKey entries)]
    at hrun
  rw [caseReads, InterfaceBody.firstCase?, ← hrun]
  rfl

end Method

end Swift

end Target

section Agreement

open Target
open Target.ConditionForm (outcome)

/-- The codec and generated code on an object that is read as an untagged interface.  The codec
reads the first case whose required keys are present and not null, and fails if there is none.  The
method in JavaScript reads the same case, or throws if there is none.  The methods in C# and Swift
read the first case whose required keys are present, which is the same case exactly when none of its
required keys is null. -/
theorem untagged_dispatch
    {s : Schema}
    {id : DeclId}
    {body : InterfaceBody}
    (hbody : (s.decl id).body = .interface body)
    (huntagged : body.strategy = .untagged)
    (placement : Placement)
    (inner : List Code)
    (entries : List (String × Json)) :
    Codec.decode s (.object entries) (.decl id) =
        (Codec.untaggedCase? body (Codec.viewEntries s entries)).elim
          (Codec.fail [] (.noMatchingSubType (s.displayName id)))
          (fun index => Codec.decodeCase body id index [] (Codec.viewEntries s entries)) ∧
      JavaScript.dispatch (JavaScript.declCode s placement id) entries =
        outcome (body.subTypes.map (JavaScript.caseRead s id)) (JavaScript.noCase s id)
          (Codec.untaggedCase? body (Codec.viewEntries s entries)) ∧
      CSharp.dispatch (CSharp.declCode s placement id inner) entries =
        outcome (body.subTypes.map (CSharp.caseRead s id)) CSharp.noCase
          (body.firstCase? (Json.hasKey entries)) ∧
      Swift.dispatch (Swift.qualified s id) (Swift.extensions s id) entries =
        outcome (Swift.caseReads s id body) Swift.noCase
          (body.firstCase? (Json.hasKey entries)) ∧
      (body.firstCase? (Json.hasKey entries) =
          Codec.untaggedCase? body (Codec.viewEntries s entries) ↔
        ∀ index c, body.firstCase? (Json.hasKey entries) = some index →
          body.subTypes[index]? = some c →
            ∀ key ∈ Untagged.requiredKeys body c, entries.lookup key ≠ some .null) := by
  have hcodec : Codec.decode s (.object entries) (.decl id) =
      (Codec.untaggedCase? body (Codec.viewEntries s entries)).elim
        (Codec.fail [] (.noMatchingSubType (s.displayName id)))
        (fun index => Codec.decodeCase body id index [] (Codec.viewEntries s entries)) := by
    simp only [Codec.decode, Codec.view, Codec.View.decode, Codec.View.decodeDecl, hbody,
      Codec.View.asObject, huntagged, bind, Except.bind]
    cases Codec.untaggedCase? body (Codec.viewEntries s entries) <;> rfl
  refine ⟨hcodec, ?_, CSharp.dispatch_declCode hbody huntagged placement inner entries,
    Swift.dispatch_extensions hbody huntagged entries, ?_⟩
  · rw [body.untaggedCase?_eq_firstCase?]
    exact JavaScript.dispatch_declCode hbody huntagged placement entries
  · rw [body.untaggedCase?_eq_firstCase?]
    exact InterfaceBody.firstCase?_hasKey_eq_iff entries

end Agreement

namespace Sample

/-- The case of points. -/
def pointCase : SubType :=
  ⟨"Point", "Point", [], pointFields, default⟩

/-- An object with the required keys of points and of lines, of which the first is null. -/
def nullPoint : List (String × Json) :=
  [("x", .null), ("ends", .array [])]

theorem untaggedCase?_nullPoint :
    Codec.untaggedCase? shapeBody (Codec.viewEntries schema nullPoint) = some 1 := by
  decide +kernel

theorem firstCase?_nullPoint :
    shapeBody.firstCase? (Json.hasKey nullPoint) = some 0 := by
  decide +kernel

theorem decode_nullPoint :
    Codec.decode schema (.object nullPoint) (.decl ⟨0, 0⟩) =
      .ok (.record ⟨0, 0⟩ (some 1) [some (.array []), none]) := by
  rfl

end Sample

section Samples

open Target

theorem untagged_dispatch_shapes :
    (Sample.schema.decl ⟨0, 0⟩).body = .interface Sample.shapeBody ∧
      Sample.shapeBody.strategy = .untagged ∧
      JavaScript.dispatch (JavaScript.declCode Sample.schema .first ⟨0, 0⟩) Sample.nullPoint =
        some (.enters 1 (JavaScript.caseRead Sample.schema ⟨0, 0⟩ Sample.lineCase)) := by
  refine ⟨rfl, rfl, (untagged_dispatch rfl rfl .first [] Sample.nullPoint).2.1.trans ?_⟩
  rw [Sample.untaggedCase?_nullPoint]
  rfl

/-- A schema that resolves, and an object that the codec reads as the second case of an interface
while the code that is written in C# and Swift reads it as the first. -/
theorem exists_null_dispatch :
    ∃ (options : ResolveOptions) (files : List SourceFile) (r : Resolved) (id : DeclId)
      (body : InterfaceBody) (entries : List (String × Json)) (fields : List (Option Value))
      (first : SubType) (caseName : String),
      resolve options files = .ok r ∧
        (r.schema.decl id).body = .interface body ∧
        body.strategy = .untagged ∧
        (body.subTypes.zip (Swift.caseNames body))[0]? = some (first, caseName) ∧
        Codec.decode r.schema (.object entries) (.decl id) = .ok (.record id (some 1) fields) ∧
        CSharp.dispatch ((r.schema.nesting id).fold (CSharp.declCode r.schema .first)) entries =
          some (.enters 0 (CSharp.caseRead r.schema id first)) ∧
        Swift.dispatch (Swift.qualified r.schema id) (Swift.extensions r.schema id) entries =
          some (.enters 0
            (Code.line s!"return {Swift.decodeCase r.schema id first caseName}")) := by
  -- The Swift name of the first case stays abstract; only its existence matters.
  obtain ⟨caseName, names, hnames⟩ : ∃ caseName names,
      Swift.caseNames Sample.shapeBody = caseName :: names :=
    List.exists_cons_of_length_pos (by rw [Swift.length_caseNames]; decide)
  refine ⟨Sample.options, [Sample.shapes], ⟨Sample.schema, []⟩, ⟨0, 0⟩, Sample.shapeBody,
    Sample.nullPoint, [some (.array []), none], Sample.pointCase, caseName, Sample.resolve_shapes,
    rfl, rfl, ?_, Sample.decode_nullPoint, ?_, ?_⟩
  · rw [hnames]
    rfl
  · refine (CSharp.dispatch_declCode rfl rfl .first _ Sample.nullPoint).trans ?_
    rw [Sample.firstCase?_nullPoint]
    rfl
  · refine (Swift.dispatch_extensions rfl rfl Sample.nullPoint).trans ?_
    rw [Sample.firstCase?_nullPoint, Swift.caseReads, hnames]
    rfl

end Samples

end Schemata
