import Schemata.Tree.Parser
import Mathlib.Logic.Function.Iterate

/-!
# Reading with a counter

Readers are told how many levels are left, and how often they repeat at most.  A parser
need not be told: it counts the levels that it is in, up on its way into a type or a
declaration and down on its way out, whether that succeeds or fails, and it repeats as
long as something is in front.  Such a parser is written down here, reader by reader.
Its loops and its recursion are plain, so that a run may go on for ever; it has no
result then.

A recursion is what its unfoldings come to: unfolded a number of times, it has no result
where it would have to be unfolded once more, and its result is the one that all
unfoldings have from some number on.

Steps that neither repeat nor recur are those of the readers.

**Results.** `recursion_eq`, `loop_eq`, `commaLoop_eq`, `skip_eq`.
-/

namespace Schemata
namespace Tree
namespace Counter

/-- Where a parser stands: its cursor, and the levels it is in. -/
structure State where
  cursor : Cursor
  nesting : Nat

/-- A run gives a value or an error, and may go on for ever. -/
abbrev Counted :=
  ExceptT ParseError (StateT State Option)

section Steps

variable {α : Type}

/-- A step that only moves the cursor. -/
def lift
    (r : Reader α) :
    Counted α :=
  fun s =>
    match r s.cursor with
    | .ok a c => some (.ok a, { s with cursor := c })
    | .error e c => some (.error e, { s with cursor := c })

instance : MonadLift Reader Counted where
  monadLift := lift

/-- Run a step, and give its error as a value. -/
def attempt
    (m : Counted α) :
    Counted (Except ParseError α) :=
  ExceptT.lift m.run

/-- Run a step one level deeper, or fail for too many levels. -/
def descend
    (m : Counted α) :
    Counted α :=
  fun s =>
    if maxNesting ≤ s.nesting then
      some (.error ⟨.nestedTooDeep maxNesting, s.cursor.span⟩, s)
    else
      (m { s with nesting := s.nesting + 1 }).map fun (result, s') =>
        (result, { s' with nesting := s'.nesting - 1 })

/-- A recursion, unfolded a number of times. -/
def unfolded
    (body : Counted α → Counted α)
    (depth : Nat) :
    Counted α :=
  body^[depth] fun _ => none

open Classical in
/-- The result that all unfoldings have from some number on. -/
noncomputable def recursion
    (body : Counted α → Counted α) :
    Counted α :=
  fun s =>
    if h : ∃ result depth, ∀ k, depth ≤ k → unfolded body k s = some result then
      some h.choose
    else none

theorem unfolded_succ
    (body : Counted α → Counted α)
    (depth : Nat) :
    unfolded body (depth + 1) = body (unfolded body depth) :=
  Function.iterate_succ_apply' body depth _

theorem exists_unfolded
    (body : Counted α → Counted α)
    {n k : Nat}
    (hk : n < k) :
    ∃ k', n ≤ k' ∧ unfolded body k = body (unfolded body k') := by
  obtain ⟨k, rfl⟩ := Nat.exists_eq_succ_of_ne_zero (Nat.ne_zero_of_lt hk)
  exact ⟨k, Nat.le_of_lt_succ hk, unfolded_succ body k⟩

/-- A recursion ends as its unfoldings, if these end alike from some number on. -/
theorem recursion_of_unfolded
    {body : Counted α → Counted α}
    {s : State}
    {result : Except ParseError α × State}
    {depth : Nat}
    (h : ∀ k, depth ≤ k → unfolded body k s = some result) :
    recursion body s = some result := by
  have hex : ∃ result depth, ∀ k, depth ≤ k → unfolded body k s = some result :=
    ⟨result, depth, h⟩
  obtain ⟨depth', h'⟩ := hex.choose_spec
  rw [recursion, dif_pos hex, ← h' (max depth depth') (Nat.le_max_right _ _)]
  exact h _ (Nat.le_max_left _ _)

/-- A recursion that does not recur is its body. -/
theorem recursion_of_const
    {body : Counted α → Counted α}
    {s : State}
    {result : Option (Except ParseError α × State)}
    (h : ∀ others, body others s = result) :
    recursion body s = result := by
  cases result with
  | none =>
      rw [recursion, dif_neg]
      rintro ⟨result, depth, hresult⟩
      have := hresult (depth + 1) (Nat.le_succ depth)
      rw [unfolded_succ, h] at this
      cases this
  | some result =>
      refine recursion_of_unfolded fun k (hk : 0 < k) => ?_
      obtain ⟨k', -, hunfolded⟩ := exists_unfolded body hk
      rw [hunfolded, h]

/-- Where each unfolding passes on what one less has at another place, the recursion passes on what
it has there; both go on for ever, or neither does. -/
theorem recursion_map
    {body : Counted α → Counted α}
    {s s' : State}
    {g : Except ParseError α × State → Except ParseError α × State}
    (hg : Function.Injective g)
    (h : ∀ k, unfolded body (k + 1) s = (unfolded body k s').map g) :
    recursion body s = (recursion body s').map g := by
  by_cases hs' : ∃ result depth, ∀ k, depth ≤ k → unfolded body k s' = some result
  · obtain ⟨result, depth, hresult⟩ := hs'
    rw [recursion_of_unfolded hresult]
    refine recursion_of_unfolded fun k (hk : depth + 1 ≤ k) => ?_
    obtain ⟨k, rfl⟩ := Nat.exists_eq_succ_of_ne_zero (Nat.ne_zero_of_lt hk)
    rw [h, hresult k (Nat.le_of_succ_le_succ hk)]
    rfl
  · suffices hs : ¬∃ result depth, ∀ k, depth ≤ k → unfolded body k s = some result by
      rw [recursion, recursion, dif_neg hs, dif_neg hs']
      rfl
    rintro ⟨result, depth, hresult⟩
    have hpassed : ∀ k, depth ≤ k → ∃ passed, unfolded body k s' = some passed ∧
        g passed = result := by
      intro k hk
      rw [← Option.map_eq_some_iff, ← h]
      exact hresult (k + 1) (Nat.le_succ_of_le hk)
    obtain ⟨passed, -, rfl⟩ := hpassed depth (Nat.le_refl _)
    refine hs' ⟨passed, depth, fun k hk => ?_⟩
    obtain ⟨passed', hunfolded, heq⟩ := hpassed k hk
    rw [hunfolded, hg heq]

/-- A step that may hold itself, one level deeper. -/
noncomputable def nested
    (step : Counted α → Counted α) :
    Counted α :=
  recursion fun inner => descend (step inner)

end Steps

section Tails

variable {α β ρ : Type}

/-- A step that runs other steps at most once and last: from everywhere it comes to the same,
whatever the others are, or to what they come to, in another form. -/
def TailRecursive
    (body : Counted ρ → Counted α) : Prop :=
  ∀ s, (∃ outcome, ∀ others, body others s = outcome) ∨
    ∃ (pass : Except ParseError ρ × State → Except ParseError α × State) (s' : State),
      Function.Injective pass ∧ ∀ others, body others s = (others s').map pass

theorem tailRecursive_const
    (m : Counted α) :
    TailRecursive fun _ : Counted ρ => m :=
  fun s => .inl ⟨m s, fun _ => rfl⟩

theorem tailRecursive_id :
    TailRecursive fun others : Counted α => others :=
  fun s => .inr ⟨id, s, Function.injective_id, fun _ => Option.map_id.symm ▸ rfl⟩

theorem tailRecursive_cons
    (a : α) :
    TailRecursive fun others : Counted (List α) => do return a :: (← others) := by
  refine fun s => .inr ⟨fun (result, s') => (result.map (a :: ·), s'), s, ?_, fun others => ?_⟩
  · rintro ⟨result, s⟩ ⟨result', s'⟩ h
    cases result <;> cases result' <;> simp_all [Except.map]
  · change (others s).bind _ = _
    cases others s with
    | none => rfl
    | some outcome =>
        obtain ⟨result, s'⟩ := outcome
        cases result with
        | ok as => rfl
        | error e => rfl

theorem TailRecursive.bind
    (m : Counted β)
    {body : β → Counted ρ → Counted α}
    (h : ∀ b, TailRecursive (body b)) :
    TailRecursive fun others => m >>= fun b => body b others := by
  intro s
  cases hm : m s with
  | none =>
      refine .inl ⟨none, fun others => ?_⟩
      change (m s).bind _ = _
      rw [hm]
      rfl
  | some passed =>
      obtain ⟨result, s'⟩ := passed
      cases result with
      | error e =>
          refine .inl ⟨some (.error e, s'), fun others => ?_⟩
          change (m s).bind _ = _
          rw [hm]
          rfl
      | ok b =>
          have hbind : ∀ others, (m >>= fun b => body b others) s = body b others s' := by
            intro others
            change (m s).bind _ = _
            rw [hm]
            rfl
          simpa only [hbind] using h b s'

theorem TailRecursive.ite
    {p : Prop}
    [Decidable p]
    {body body' : Counted ρ → Counted α}
    (h : TailRecursive body)
    (h' : TailRecursive body') :
    TailRecursive fun others => if p then body others else body' others := by
  by_cases hp : p
  · simpa only [if_pos hp] using h
  · simpa only [if_neg hp] using h'

/-- A recursion is its body once and the recursion behind it, also where it goes on for ever. -/
theorem recursion_eq
    {body : Counted α → Counted α}
    (h : TailRecursive body) :
    recursion body = body (recursion body) := by
  funext s
  obtain ⟨outcome, hbody⟩ | ⟨pass, s', hpass, hbody⟩ := h s
  · rw [hbody]
    exact recursion_of_const hbody
  · rw [hbody]
    refine recursion_map hpass fun k => ?_
    rw [unfolded_succ, hbody]

end Tails

section Loops

variable {α : Type}

/-- Run a step if the condition holds, and then the rounds behind it. -/
def loopOver
    (more : Cursor → Bool)
    (step : Counted α)
    (others : Counted (List α)) :
    Counted (List α) := do
  if more (← get) then
    let a ← step
    return a :: (← others)
  else return []

/-- Run a step while the condition holds. -/
noncomputable def loop
    (more : Cursor → Bool)
    (step : Counted α) :
    Counted (List α) :=
  recursion (loopOver more step)

theorem loop_eq
    (more : Cursor → Bool)
    (step : Counted α) :
    loop more step = loopOver more step (loop more step) :=
  recursion_eq <| .bind get fun _ =>
    .ite (.bind step fun a => tailRecursive_cons a) (tailRecursive_const _)

/-- Run a step unless the closing mark is in front, and others behind a comma. -/
def commaOver
    (close : Punctuation)
    (item : Counted α)
    (others : Counted (List α)) :
    Counted (List α) := do
  if (← get).isAt (.punctuation close) then return []
  else
    let a ← item
    if ← eatMark .comma then return a :: (← others)
    else return [a]

/-- Items with commas between them and perhaps after the last, up to a closing mark that is not
taken. -/
noncomputable def commaLoop
    (close : Punctuation)
    (item : Counted α) :
    Counted (List α) :=
  recursion (commaOver close item)

theorem commaLoop_eq
    (close : Punctuation)
    (item : Counted α) :
    commaLoop close item = commaOver close item (commaLoop close item) :=
  recursion_eq <| .bind get fun _ => .ite (tailRecursive_const _) <| .bind item fun a =>
    .bind _ fun _ => .ite (tailRecursive_cons a) (tailRecursive_const _)

/-- Items up to a closing brace, between braces. -/
noncomputable def inBraces
    (item : Counted α) :
    Counted (List α) := do
  let _ ← expectMark .openBrace
  let items ← loop (!·.isAt (.punctuation .closeBrace)) item
  let _ ← expectMark .closeBrace
  return items

/-- Run a step after a terminal, if the terminal is in front. -/
def whenAt
    (symbol : Terminal)
    (step : Counted α) :
    Counted (Option α) := do
  if ← eat symbol then return some (← step)
  else return none

end Loops

section Types

/-- Read the name of a declaration. -/
noncomputable def typeName : Counted TypeName := do
  let start := (← get).span
  let qualifier ← readQualifier
  let first ← readTypeIdent "type name"
  let more ← loop (·.isAt (.punctuation .colonColon)) do
    modify Cursor.bump
    readTypeIdent "type name"
  return { qualifier
           path := first.value :: more.map (·.value)
           span := start.cover (← get).last }

/-- Read a type on its level; the types in it are read by `type`. -/
noncomputable def typeTerm
    (type : Counted TypeExpr) :
    Counted TypeExpr := do
  match (← get).peek? with
  | some (.keyword (.primitive type)) =>
      modify Cursor.bump
      return .primitive type
  | some (.punctuation .openBracket) =>
      modify Cursor.bump
      let item ← type
      let _ ← expectMark .closeBracket
      return .array item
  | some (.punctuation .openBrace) =>
      modify Cursor.bump
      let key ← type
      let _ ← expectMark .colon
      let value ← type
      let _ ← expectMark .closeBrace
      return .map key value
  | some (.punctuation .openParen) =>
      modify Cursor.bump
      let first ← type
      let more ← loop (·.isAt (.punctuation .comma)) do
        modify Cursor.bump
        type
      let _ ← expect (.punctuation .closeParen) "`,` or `)`"
      return .tuple (first :: more)
  | some (.ident _) | some (.typeIdent _) => return .name (← typeName)
  | _ => (failExpecting "a type" : Reader TypeExpr)

/-- Read a type. -/
noncomputable def type : Counted TypeExpr :=
  nested typeTerm

/-- Read a type in its place. -/
noncomputable def placedType : Counted (Located TypeExpr) := do
  let start := (← get).span
  let type ← type
  return ⟨type, start.cover (← get).last⟩

/-- Read a type that may be a stream. -/
noncomputable def channel : Counted Channel := do
  let streaming ← eat (.keyword .streamWord)
  return { streaming, type := ← placedType }

end Types

section Parts

/-- Read an import; its keyword is in front. -/
noncomputable def importLine : Counted Import := do
  let start ← advance
  let first ← readIdent "package name"
  let more ← loop (·.isAt (.punctuation .fullStop)) do
    modify Cursor.bump
    readIdent "package name"
  let span := more.foldl (fun s part => s.cover part.span) first.span
  let range ← readRange
  let alias? ← after (.keyword .asWord) (readIdent "package alias")
  let stop ← expectMark .semicolon
  return { package := ⟨⟨first.value :: more.map (·.value)⟩, span⟩
           range
           alias?
           span := start.cover stop }

/-- Read the arguments of an attribute, if there are any. -/
noncomputable def attributeArguments : Counted (List Argument) := do
  if ← eatMark .openParen then
    let args ← commaLoop .closeParen readArgument
    let _ ← expectMark .closeParen
    return args
  else return []

/-- Read an attribute; its hash is in front. -/
noncomputable def hashAttribute : Counted Attribute := do
  let start ← advance
  let _ ← expectMark .openBracket
  let name ← readIdent "attribute name"
  let args ← attributeArguments
  let stop ← expectMark .closeBracket
  return { name, args, span := start.cover stop }

/-- Read the attributes of a declaration. -/
noncomputable def attributes : Counted (List Attribute) :=
  loop (·.isAt (.punctuation .hash)) hashAttribute

/-- Read a field without what ends it. -/
noncomputable def fieldParts : Counted Field := do
  let doc ← takeDoc
  let name ← readIdent "field name"
  let optional ← eatMark .question
  let _ ← expectMark .colon
  let type ← placedType
  let alias? ← after (.keyword .asWord) (readString "field alias")
  return { doc, name, optional, type, alias?, span := name.span.cover (← get).last }

/-- Read a field and the semicolon that ends it. -/
noncomputable def field : Counted Field := do
  let field ← fieldParts
  let stop ← expectMark .semicolon
  return { field with span := field.span.cover stop }

/-- Read an argument of an endpoint. -/
noncomputable def endpointArgument : Counted EndpointArgument := do
  let name ← readIdent "argument name"
  let _ ← expectMark .colon
  return { name, channel := ← channel }

/-- Read an endpoint. -/
noncomputable def endpoint : Counted Endpoint := do
  let doc ← takeDoc
  let name ← readIdent "endpoint name"
  let _ ← expectMark .openParen
  let arguments ← commaLoop .closeParen endpointArgument
  let _ ← expect (.punctuation .closeParen) "`,` or `)`"
  let response ← whenAt (.punctuation .arrow) channel
  let alias? ← after (.keyword .asWord) (readString "endpoint alias")
  let stop ← expectMark .semicolon
  return { doc, name, arguments, response, alias?, span := name.span.cover stop }

end Parts

section Declarations

section Bodies

variable (decl : Counted Decl)

/-- Read a field or a nested declaration. -/
noncomputable def member : Counted (Member Decl) := do
  match (← get).peek? with
  | some (.ident _) => return .field (← field)
  | some symbol =>
      if beginsDecl symbol then return .decl (← decl)
      else (failExpecting "a field or declaration" : Reader (Member Decl))
  | none => (failExpecting "a field or declaration" : Reader (Member Decl))

/-- Read members in braces. -/
noncomputable def members : Counted (List (Member Decl)) :=
  inBraces (member decl)

/-- Read the body of a tuple: members in braces, or fields in parentheses. -/
noncomputable def tupleMembers : Counted (List (Member Decl)) := do
  if ← eatMark .openParen then
    let fields ← commaLoop .closeParen fieldParts
    let _ ← expect (.punctuation .closeParen) "`,` or `)`"
    let _ ← eatMark .semicolon
    return fields.map .field
  else members decl

/-- Read the members of a case of an interface, or the semicolon of a case that has none. -/
noncomputable def subTypeMembers : Counted (List (Member Decl)) := do
  if (← get).isAt (.punctuation .openBrace) then members decl
  else
    let _ ← expect (.punctuation .semicolon) "`\x7b` or `;`"
    return []

/-- Read a case of an interface. -/
noncomputable def subType : Counted (SubType Decl) := do
  let doc ← takeDoc
  let name ← readTypeIdent "sub-type name"
  let alias? ← after (.keyword .asWord) readLiteral
  let members ← subTypeMembers decl
  return { doc, name, alias?, members, span := name.span.cover (← get).last }

/-- Read a member or a case of an interface. -/
noncomputable def interfaceItem : Counted InterfaceItem := do
  match (← get).peek? with
  | some (.typeIdent _) => return .subType (← subType decl)
  | _ => return .member (← member decl)

/-- Read an endpoint or a nested declaration of a service. -/
noncomputable def serviceItem : Counted ServiceItem := do
  match (← get).peek? with
  | some (.ident _) => return .endpoint (← endpoint)
  | some symbol =>
      if beginsDecl symbol then return .decl (← decl)
      else (failExpecting "an endpoint or declaration" : Reader ServiceItem)
  | none => (failExpecting "an endpoint or declaration" : Reader ServiceItem)

/-- Read the body of a declaration. -/
noncomputable def body : DeclWord → Counted (Body Decl)
  | .type => return .type (← members decl)
  | .tuple => return .tuple (← tupleMembers decl)
  | .interface => do
      let items ← inBraces (interfaceItem decl)
      return .interface (items.filterMap InterfaceItem.member?)
        (items.filterMap InterfaceItem.subType?)
  | .enum => do
      let type ← whenAt (.keyword .asWord) placedType
      return .enum type (← inBraces readEnumMember)
  | .service => do
      let items ← inBraces (serviceItem decl)
      return .service (items.filterMap ServiceItem.endpoint?)
        (items.filterMap ServiceItem.decl?)

/-- Read a declaration on its level; the declarations in it are read by `decl`. -/
noncomputable def declaration : Counted Decl := do
  let doc ← takeDoc
  let start := (← get).span
  let attributes ← attributes
  let word ← readDeclWord
  let name ← readTypeIdent "declaration name"
  let body ← body decl word
  return { doc, attributes, name, body, span := start.cover (← get).last }

end Bodies

/-- Read a declaration. -/
noncomputable def decl : Counted Decl :=
  nested declaration

end Declarations

section Files

/-- Read an import or a declaration. -/
noncomputable def item : Counted Item := do
  if (← get).isAt (.keyword .useWord) then return .imported (← importLine)
  else return .decl (← decl)

/-- Skip the lexeme in front, and then others, unless reading goes on before or behind it. -/
def skipOver
    (others : Counted Unit) :
    Counted Unit := do
  let c ← get
  match c.peek? with
  | none => return ()
  | some symbol =>
      if c.depth == 0 && (beginsDecl symbol || symbol == .keyword .useWord) then return ()
      else
        modify Cursor.bump
        if symbol == .punctuation .closeBrace && (← get).depth == 0 then return ()
        else others

/-- Skip lexemes up to a place at which reading goes on. -/
noncomputable def skip : Counted Unit :=
  recursion skipOver

theorem skip_eq :
    skip = skipOver skip := by
  refine recursion_eq <| .bind get fun c => ?_
  cases c.peek? with
  | none => exact tailRecursive_const _
  | some symbol =>
      refine .ite (tailRecursive_const _) <| .bind _ fun _ => .bind _ fun _ => ?_
      exact .ite (tailRecursive_const _) tailRecursive_id

/-- One round of the reading of a file: an item, or an error and what is skipped behind it. -/
noncomputable def round : Counted (Except ParseError Item) := do
  let found ← attempt item
  if let .error _ := found then skip
  return found

/-- Read the items of a file and the errors between them, in their order. -/
noncomputable def items : Counted (List (Except ParseError Item)) :=
  loop (·.peek?.isSome) round

end Files

end Counter
end Tree
end Schemata
