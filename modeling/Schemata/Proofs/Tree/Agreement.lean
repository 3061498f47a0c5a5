import Schemata.Proofs.Tree.Counter
import Schemata.Proofs.Tree.Soundness

/-!
# Counting and being told agree

A parser that counts levels ends every run as the reader of the same name ends, and
with the counter where it was, be it after a success or after a failure.  Two facts
carry this.  The levels that are left are what the counter lacks to `maxNesting`, so
that nesting is unfolded no deeper than that.  And every round of a loop that goes on
has taken a lexeme, so that a loop is unfolded no more often than there are lexemes, and
the bound of a repetition is never what ends it.

**Results.** `agrees_type`, `agrees_decl`, `agrees_item`, `type_eq`, `decl_eq`.
-/

namespace Schemata
namespace Tree

open Grammar

namespace Counter

section Steps

variable {α β : Type}
variable {n : Nat}
variable {c : Cursor}

/-- A run on a level ends as a reader ends, and on the same level. -/
def AgreesAt
    (n : Nat)
    (c : Cursor)
    (m : Counted α)
    (r : Reader α) : Prop :=
  m ⟨c, n⟩ = lift r ⟨c, n⟩

/-- All runs on a level end as a reader ends, and on the same level. -/
def Agrees
    (n : Nat)
    (m : Counted α)
    (r : Reader α) : Prop :=
  ∀ c, AgreesAt n c m r

theorem agrees_lift
    (r : Reader α) :
    Agrees n (liftM r) r :=
  fun _ => rfl

theorem agrees_get :
    Agrees n get get :=
  fun _ => rfl

theorem agrees_modify
    (f : Cursor → Cursor) :
    Agrees n (modify f) (modify f) :=
  fun _ => rfl

theorem agrees_pure
    (a : α) :
    Agrees n (pure a) (pure a) :=
  fun _ => rfl

theorem lift_of_ok
    {r : Reader α}
    {a : α}
    {next : Cursor}
    (h : r c = .ok a next) :
    lift r ⟨c, n⟩ = some (.ok a, ⟨next, n⟩) := by
  rw [lift, h]

theorem lift_of_error
    {r : Reader α}
    {e : ParseError}
    {next : Cursor}
    (h : r c = .error e next) :
    lift r ⟨c, n⟩ = some (.error e, ⟨next, n⟩) := by
  rw [lift, h]

theorem lift_modify
    (f : Cursor → Cursor)
    (s : State) :
    lift (modify f) s = some (.ok (), { s with cursor := f s.cursor }) :=
  rfl

theorem AgreesAt.bind
    {m : Counted α}
    {r : Reader α}
    {f : α → Counted β}
    {g : α → Reader β}
    (hm : AgreesAt n c m r)
    (hf : ∀ a next, r c = .ok a next → AgreesAt n next (f a) (g a)) :
    AgreesAt n c (m >>= f) (r >>= g) := by
  change (m ⟨c, n⟩).bind _ = _
  rw [show m ⟨c, n⟩ = lift r ⟨c, n⟩ from hm]
  cases hr : r c with
  | ok a next =>
      rw [lift_of_ok hr, lift, bind_of_ok g hr]
      exact hf a next hr
  | error e next =>
      rw [lift_of_error hr, lift_of_error (bind_of_error g hr)]
      rfl

theorem Agrees.bind
    {m : Counted α}
    {r : Reader α}
    {f : α → Counted β}
    {g : α → Reader β}
    (hm : Agrees n m r)
    (hf : ∀ a, Agrees n (f a) (g a)) :
    Agrees n (m >>= f) (r >>= g) :=
  fun c => (hm c).bind fun a next _ => hf a next

/-- A run that looks at the cursor first. -/
theorem AgreesAt.get_bind
    {f : Cursor → Counted β}
    {g : Cursor → Reader β}
    (h : AgreesAt n c (f c) (g c)) :
    AgreesAt n c (get >>= f) (get >>= g) :=
  h

theorem Agrees.ite
    {p : Prop}
    [Decidable p]
    {m m' : Counted α}
    {r r' : Reader α}
    (h : Agrees n m r)
    (h' : Agrees n m' r') :
    Agrees n (if p then m else m') (if p then r else r') := by
  by_cases hp : p
  · rwa [if_pos hp, if_pos hp]
  · rwa [if_neg hp, if_neg hp]

/-- Where levels are left, the counter comes back to where it was. -/
theorem Agrees.descend
    {m : Counted α}
    {r : Reader α}
    (hn : n < maxNesting)
    (h : Agrees (n + 1) m r) :
    Agrees n (descend m) r := by
  intro c
  rw [AgreesAt, Counter.descend, if_neg (Nat.not_le.mpr hn)]
  change (m ⟨c, n + 1⟩).map _ = _
  rw [show m ⟨c, n + 1⟩ = lift r ⟨c, n + 1⟩ from h c]
  -- the way out is the same behind a value and behind an error
  cases hr : r c with
  | ok a next =>
      rw [lift_of_ok hr, lift_of_ok hr]
      rfl
  | error e next =>
      rw [lift_of_error hr, lift_of_error hr]
      rfl

/-- Where no level is left, the run fails on its way in. -/
theorem agrees_descend_of_le
    (m : Counted α)
    (hn : maxNesting ≤ n) :
    Agrees n (descend m) failNesting := by
  intro c
  rw [AgreesAt, descend, if_pos hn]
  rfl

theorem agreesAt_recursion
    {body : Counted α → Counted α}
    {r : Reader α}
    {depth : Nat}
    (h : ∀ k, depth ≤ k → AgreesAt n c (unfolded body k) r) :
    AgreesAt n c (recursion body) r := by
  cases hr : r c with
  | ok a next =>
      rw [AgreesAt, lift_of_ok hr]
      exact recursion_of_unfolded fun k hk => (h k hk).trans (lift_of_ok hr)
  | error e next =>
      rw [AgreesAt, lift_of_error hr]
      exact recursion_of_unfolded fun k hk => (h k hk).trans (lift_of_error hr)

end Steps

section Progress

variable {α : Type}
variable {P : Phrase α}
variable {r : Reader α}

/-- A reader that succeeds has taken a lexeme, if the condition holds before. -/
def Takes
    (more : Cursor → Bool)
    (r : Reader α) : Prop :=
  ∀ ⦃c a c'⦄, more c = true → r c = .ok a c' → c'.rest.length < c.rest.length

theorem length_le_of_sound
    (h : Sound r P)
    {c c' : Cursor}
    {a : α}
    (hread : r c = .ok a c') :
    c'.rest.length ≤ c.rest.length := by
  obtain ⟨part, hpass, -⟩ := h hread
  rw [hpass.rest, List.length_append]
  exact Nat.le_add_left _ _

/-- A reader of phrases takes the first terminal of one. -/
theorem takes_of_starts
    {more : Cursor → Bool}
    {first : Terminal → Prop}
    (h : Sound r P)
    (hP : Starts P first) :
    Takes more r := by
  intro c a c' _ hread
  obtain ⟨part, hpass, hpart⟩ := h hread
  rw [hpass.rest, List.length_append]
  exact Nat.lt_add_of_pos_left (List.length_pos_of_ne_nil (hP.ne_nil hpart))

/-- A reader behind a mark takes the mark. -/
theorem takes_bump
    {mark : Terminal}
    (h : Sound r P) :
    Takes (·.isAt mark) (do modify Cursor.bump; r) := by
  intro c a c' hmark hread
  obtain ⟨l, -, hpass⟩ := Cursor.exists_passes_of_peek? (Cursor.peek?_of_isAt hmark)
  have hle : c'.rest.length ≤ c.bump.rest.length := length_le_of_sound h hread
  rw [hpass.rest, List.length_append]
  exact Nat.lt_of_le_of_lt hle (Nat.lt_add_of_pos_left Nat.one_pos)

end Progress

section Loops

variable {α : Type}
variable {n : Nat}
variable {step : Counted α}
variable {r : Reader α}
variable (hstep : Agrees n step r)
include hstep

/-- A plain loop ends as a bounded one, if each round takes a lexeme: it has fewer rounds than the
bound allows.  The rounds may count on what they keep. -/
theorem agreesAt_loop
    {more : Cursor → Bool}
    {kept : Cursor → Prop}
    (htakes : ∀ ⦃c a c'⦄, kept c → more c = true → r c = .ok a c' →
      kept c' ∧ c'.rest.length < c.rest.length)
    {c : Cursor}
    (hc : kept c) :
    AgreesAt n c (loop more step) (whileMore more r) := by
  suffices h : ∀ rounds c k, kept c → c.rest.length < rounds → rounds ≤ k →
      AgreesAt n c (unfolded (loopOver more step) k) (repeatWhile more r rounds) from
    agreesAt_recursion fun k hk => h (c.rest.length + 1) c k hc (Nat.lt_succ_self _) hk
  intro rounds
  induction rounds with
  | zero =>
      intro c k _ hlength
      exact absurd hlength (Nat.not_lt_zero _)
  | succ rounds ih =>
      intro c k hc hlength hk
      obtain ⟨k', hk', hunfolded⟩ := exists_unfolded (loopOver more step) hk
      rw [hunfolded, repeatWhile]
      refine .get_bind ?_
      by_cases hmore : more c = true
      · rw [if_pos hmore, if_pos hmore]
        refine (hstep c).bind fun a next hread => ?_
        obtain ⟨hnext, htaken⟩ := htakes hc hmore hread
        exact (ih next k' hnext (by omega) hk').bind fun as _ _ => agrees_pure _ _
      · rw [if_neg hmore, if_neg hmore]
        exact agrees_pure _ c

theorem agrees_loop
    {more : Cursor → Bool}
    (htakes : Takes more r) :
    Agrees n (loop more step) (whileMore more r) :=
  fun _ => agreesAt_loop hstep (fun _ _ _ _ hmore hread => ⟨trivial, htakes hmore hread⟩) trivial

theorem agrees_commaLoop
    (close : Punctuation)
    (htakes : Takes (fun _ => true) r) :
    Agrees n (commaLoop close step) (commaList close r) := by
  suffices h : ∀ rounds c k, c.rest.length < rounds → rounds ≤ k →
      AgreesAt n c (unfolded (commaOver close step) k) (commaItems close r rounds) from
    fun c => agreesAt_recursion fun k hk => h (c.rest.length + 1) c k (Nat.lt_succ_self _) hk
  intro rounds
  induction rounds with
  | zero =>
      intro c k hc
      exact absurd hc (Nat.not_lt_zero _)
  | succ rounds ih =>
      intro c k hc hk
      obtain ⟨k', hk', hunfolded⟩ := exists_unfolded (commaOver close step) hk
      rw [hunfolded, commaItems]
      refine .get_bind ?_
      by_cases hclose : c.isAt (.punctuation close) = true
      · rw [if_pos hclose, if_pos hclose]
        exact agrees_pure _ c
      · rw [if_neg hclose, if_neg hclose]
        refine (hstep c).bind fun a mid hread => ?_
        refine (agrees_lift _ mid).bind fun taken next heat => ?_
        cases taken with
        | false => exact agrees_pure _ next
        | true =>
            have htaken : mid.rest.length < c.rest.length := htakes rfl hread
            have hcomma : next.rest.length ≤ mid.rest.length :=
              length_le_of_sound (eat_sound _) heat
            exact (ih next k' (by omega) hk').bind fun as _ _ => agrees_pure _ _

theorem agrees_braced
    {P : Phrase α}
    {first : Terminal → Prop}
    (h : Sound r P)
    (hP : Starts P first) :
    Agrees n (inBraces step) (braced r) := by
  refine (agrees_lift _).bind fun _ => ?_
  refine (agrees_loop hstep (takes_of_starts h hP)).bind fun items => ?_
  exact (agrees_lift _).bind fun _ => agrees_pure items

theorem agrees_after
    (symbol : Terminal) :
    Agrees n (whenAt symbol step) (after symbol r) := by
  refine (agrees_lift _).bind fun taken => ?_
  exact .ite (hstep.bind fun a => agrees_pure _) (agrees_pure _)

end Loops

section Levels

/-- The levels that are left. -/
def levelsLeft
    (n : Nat) :
    Nat :=
  maxNesting - n

theorem levelsLeft_of_lt
    {n : Nat}
    (hn : n < maxNesting) :
    levelsLeft n = levelsLeft (n + 1) + 1 := by
  unfold levelsLeft
  omega

variable {α : Type}
variable {step : Counted α → Counted α}
variable {read : Nat → Reader α}
variable (hzero : read 0 = failNesting)
variable (hstep : ∀ n inner, Agrees n inner (read (levelsLeft n)) →
  Agrees n (step inner) (read (levelsLeft n + 1)))
include hzero hstep

/-- One more level is read as one more unfolding. -/
theorem agrees_descend
    {n : Nat}
    {inner : Counted α}
    (hinner : n < maxNesting → Agrees (n + 1) inner (read (levelsLeft (n + 1)))) :
    Agrees n (descend (step inner)) (read (levelsLeft n)) := by
  by_cases hn : n < maxNesting
  · rw [levelsLeft_of_lt hn]
    exact Agrees.descend hn (hstep (n + 1) inner (hinner hn))
  · rw [levelsLeft, Nat.sub_eq_zero_of_le (Nat.le_of_not_lt hn), hzero]
    exact agrees_descend_of_le _ (Nat.le_of_not_lt hn)

/-- What is nested is unfolded once for each level that is left. -/
theorem agrees_nested
    (n : Nat) :
    Agrees n (nested step) (read (levelsLeft n)) := by
  suffices h : ∀ k n, levelsLeft n < k →
      Agrees n (unfolded (fun inner => descend (step inner)) k) (read (levelsLeft n)) from
    fun c => agreesAt_recursion fun k hk => h k n hk c
  intro k
  induction k with
  | zero =>
      intro n hk
      exact absurd hk (Nat.not_lt_zero _)
  | succ k ih =>
      intro n hk
      rw [unfolded_succ]
      refine agrees_descend hzero hstep fun hn => ih (n + 1) ?_
      rw [levelsLeft_of_lt hn] at hk
      exact Nat.lt_of_succ_lt_succ hk

theorem nested_eq :
    nested step = descend (step (nested step)) := by
  funext ⟨c, n⟩
  have hunfolded := agrees_descend hzero hstep (n := n) fun _ =>
    agrees_nested hzero hstep (n + 1)
  exact (agrees_nested hzero hstep n c).trans (hunfolded c).symm

end Levels

section Types

theorem agrees_typeName
    (n : Nat) :
    Agrees n typeName readTypeName := by
  refine agrees_get.bind fun c => (agrees_lift _).bind fun qualifier => ?_
  refine (agrees_lift _).bind fun first => ?_
  refine Agrees.bind (agrees_loop ?_ ?_) fun more => agrees_get.bind fun c' => agrees_pure _
  · exact (agrees_modify _).bind fun _ => agrees_lift _
  · exact takes_bump (readTypeIdent_sound _)

theorem agrees_typeTerm
    {n levels : Nat}
    {type : Counted TypeExpr}
    (htype : Agrees n type (readTypeExpr levels)) :
    Agrees n (typeTerm type) (readTypeExpr (levels + 1)) := by
  rw [readTypeExpr]
  refine agrees_get.bind fun c => ?_
  cases c.peek? with
  | none => exact agrees_lift _
  | some symbol =>
      cases symbol with
      | keyword word =>
          cases word with
          | primitive type => exact (agrees_modify _).bind fun _ => agrees_pure _
          | _ => exact agrees_lift _
      | punctuation mark =>
          cases mark with
          | openBracket =>
              refine (agrees_modify _).bind fun _ => htype.bind fun item => ?_
              exact (agrees_lift _).bind fun _ => agrees_pure _
          | openBrace =>
              refine (agrees_modify _).bind fun _ => htype.bind fun key => ?_
              refine (agrees_lift _).bind fun _ => htype.bind fun value => ?_
              exact (agrees_lift _).bind fun _ => agrees_pure _
          | openParen =>
              refine (agrees_modify _).bind fun _ => htype.bind fun first => ?_
              refine Agrees.bind (agrees_loop ?_ ?_) fun more => ?_
              · exact (agrees_modify _).bind fun _ => htype
              · exact takes_bump (readTypeExpr_sound levels)
              · exact (agrees_lift _).bind fun _ => agrees_pure _
          | _ => exact agrees_lift _
      | ident name => exact (agrees_typeName n).bind fun _ => agrees_pure _
      | typeIdent name => exact (agrees_typeName n).bind fun _ => agrees_pure _
      | string value => exact agrees_lift _
      | number text => exact agrees_lift _

theorem agrees_type
    (n : Nat) :
    Agrees n type (readTypeExpr (levelsLeft n)) :=
  agrees_nested rfl (fun _ _ => agrees_typeTerm) n

/-- Types are read as the recursion says. -/
theorem type_eq :
    type = descend (typeTerm type) :=
  nested_eq rfl fun _ _ => agrees_typeTerm

theorem agrees_placedType
    (n : Nat) :
    Agrees n placedType (readType (levelsLeft n)) :=
  agrees_get.bind fun _ => (agrees_type n).bind fun _ => agrees_get.bind fun _ => agrees_pure _

theorem agrees_channel
    (n : Nat) :
    Agrees n channel (readChannel (levelsLeft n)) :=
  (agrees_lift _).bind fun _ => (agrees_placedType n).bind fun _ => agrees_pure _

end Types

section Parts

variable (n : Nat)

theorem agrees_importLine :
    Agrees n importLine readImport := by
  refine (agrees_lift _).bind fun start => (agrees_lift _).bind fun first => ?_
  refine Agrees.bind (agrees_loop ?_ ?_) fun more => ?_
  · exact (agrees_modify _).bind fun _ => agrees_lift _
  · exact takes_bump (readIdent_sound _)
  · refine (agrees_lift _).bind fun range => (agrees_lift _).bind fun alias? => ?_
    exact (agrees_lift _).bind fun stop => agrees_pure _

theorem agrees_attributeArguments :
    Agrees n attributeArguments readArguments := by
  refine (agrees_lift _).bind fun opened => .ite ?_ (agrees_pure _)
  refine Agrees.bind (agrees_commaLoop (agrees_lift _) _ ?_) fun args => ?_
  · exact takes_of_starts readArgument_sound starts_attributeArgument
  · exact (agrees_lift _).bind fun _ => agrees_pure _

theorem agrees_hashAttribute :
    Agrees n hashAttribute readAttribute := by
  refine (agrees_lift _).bind fun start => (agrees_lift _).bind fun _ => ?_
  refine (agrees_lift _).bind fun name => (agrees_attributeArguments n).bind fun args => ?_
  exact (agrees_lift _).bind fun stop => agrees_pure _

theorem agrees_attributes :
    Agrees n attributes readAttributes := by
  refine agrees_loop (agrees_hashAttribute n) fun c a c' hhash hread => ?_
  obtain ⟨part, hpass, hpart⟩ := readAttribute_sound (Cursor.peek?_of_isAt hhash) hread
  rw [hpass.rest, List.length_append]
  exact Nat.lt_add_of_pos_left (List.length_pos_of_ne_nil (starts_hashAttribute.ne_nil hpart))

theorem agrees_fieldParts :
    Agrees n fieldParts (readFieldParts (levelsLeft n)) := by
  refine (agrees_lift _).bind fun doc => (agrees_lift _).bind fun name => ?_
  refine (agrees_lift _).bind fun optional => (agrees_lift _).bind fun _ => ?_
  refine (agrees_placedType n).bind fun type => ?_
  exact (agrees_lift _).bind fun alias? => agrees_get.bind fun c => agrees_pure _

theorem agrees_field :
    Agrees n field (readField (levelsLeft n)) :=
  (agrees_fieldParts n).bind fun _ => (agrees_lift _).bind fun _ => agrees_pure _

theorem agrees_endpointArgument :
    Agrees n endpointArgument (readEndpointArgument (levelsLeft n)) := by
  refine (agrees_lift _).bind fun name => (agrees_lift _).bind fun _ => ?_
  exact (agrees_channel n).bind fun channel => agrees_pure _

theorem agrees_endpoint :
    Agrees n endpoint (readEndpoint (levelsLeft n)) := by
  refine (agrees_lift _).bind fun doc => (agrees_lift _).bind fun name => ?_
  refine (agrees_lift _).bind fun _ => ?_
  refine Agrees.bind (agrees_commaLoop (agrees_endpointArgument n) _ ?_) fun arguments => ?_
  · exact takes_of_starts (readEndpointArgument_sound _) (starts_channelArgument _)
  · refine (agrees_lift _).bind fun _ => ?_
    refine (agrees_after (agrees_channel n) _).bind fun response => ?_
    exact (agrees_lift _).bind fun alias? => (agrees_lift _).bind fun stop => agrees_pure _

end Parts

section Bodies

variable {n : Nat}
variable {decl : Counted Decl}
variable (hdecl : Agrees n decl (readDecl (levelsLeft n)))
include hdecl

theorem agrees_member :
    Agrees n (member decl) (readMember (readDecl (levelsLeft n)) (levelsLeft n)) := by
  refine agrees_get.bind fun c => ?_
  cases c.peek? with
  | none => exact agrees_lift _
  | some symbol =>
      cases symbol with
      | ident name => exact (agrees_field n).bind fun _ => agrees_pure _
      | _ => exact .ite (hdecl.bind fun _ => agrees_pure _) (agrees_lift _)

theorem agrees_members :
    Agrees n (members decl) (readMembers (readDecl (levelsLeft n)) (levelsLeft n)) :=
  agrees_braced (agrees_member hdecl) (readMember_sound (readDecl_sound _) _)
    (starts_memberOver (starts_decl _) _)

theorem agrees_tupleMembers :
    Agrees n (tupleMembers decl)
      (readTupleMembers (readDecl (levelsLeft n)) (levelsLeft n)) := by
  refine (agrees_lift _).bind fun opened => .ite ?_ (agrees_members hdecl)
  refine Agrees.bind (agrees_commaLoop (agrees_fieldParts n) _ ?_) fun fields => ?_
  · exact takes_of_starts (readFieldParts_sound _) (starts_fieldParts _)
  · exact (agrees_lift _).bind fun _ => (agrees_lift _).bind fun _ => agrees_pure _

theorem agrees_subTypeMembers :
    Agrees n (subTypeMembers decl)
      (readSubTypeMembers (readDecl (levelsLeft n)) (levelsLeft n)) := by
  refine agrees_get.bind fun c => .ite (agrees_members hdecl) ?_
  exact (agrees_lift _).bind fun _ => agrees_pure _

theorem agrees_subType :
    Agrees n (subType decl) (readSubType (readDecl (levelsLeft n)) (levelsLeft n)) := by
  refine (agrees_lift _).bind fun doc => (agrees_lift _).bind fun name => ?_
  refine (agrees_lift _).bind fun alias? => (agrees_subTypeMembers hdecl).bind fun members => ?_
  exact agrees_get.bind fun c => agrees_pure _

theorem agrees_interfaceItem :
    Agrees n (interfaceItem decl)
      (readInterfaceItem (readDecl (levelsLeft n)) (levelsLeft n)) := by
  have hmember := (agrees_member hdecl).bind fun m => agrees_pure (InterfaceItem.member m)
  refine agrees_get.bind fun c => ?_
  cases c.peek? with
  | none => exact hmember
  | some symbol =>
      cases symbol with
      | typeIdent name => exact (agrees_subType hdecl).bind fun _ => agrees_pure _
      | _ => exact hmember

theorem agrees_serviceItem :
    Agrees n (serviceItem decl)
      (readServiceItem (readDecl (levelsLeft n)) (levelsLeft n)) := by
  refine agrees_get.bind fun c => ?_
  cases c.peek? with
  | none => exact agrees_lift _
  | some symbol =>
      cases symbol with
      | ident name => exact (agrees_endpoint n).bind fun _ => agrees_pure _
      | _ => exact .ite (hdecl.bind fun _ => agrees_pure _) (agrees_lift _)

theorem agrees_body
    (word : DeclWord) :
    Agrees n (body decl word) (readBody (readDecl (levelsLeft n)) (levelsLeft n) word) := by
  cases word with
  | type => exact (agrees_members hdecl).bind fun _ => agrees_pure _
  | tuple => exact (agrees_tupleMembers hdecl).bind fun _ => agrees_pure _
  | interface =>
      have hitems := agrees_braced (agrees_interfaceItem hdecl)
        (readInterfaceItem_sound (readDecl_sound _) _) (starts_interfaceLine (starts_decl _) _)
      exact hitems.bind fun items => agrees_pure _
  | enum =>
      refine (agrees_after (agrees_placedType n) _).bind fun type => ?_
      have hmember : Agrees n (liftM readEnumMember) readEnumMember := agrees_lift _
      have hitems := agrees_braced hmember readEnumMember_sound starts_enumLine
      exact hitems.bind fun items => agrees_pure _
  | service =>
      have hitems := agrees_braced (agrees_serviceItem hdecl)
        (readServiceItem_sound (readDecl_sound _) _) (starts_serviceLine (starts_decl _) _)
      exact hitems.bind fun items => agrees_pure _

theorem agrees_declaration :
    Agrees n (declaration decl) (readDecl (levelsLeft n + 1)) := by
  refine (agrees_lift _).bind fun doc => agrees_get.bind fun c => ?_
  refine (agrees_attributes n).bind fun attributes => (agrees_lift _).bind fun word => ?_
  refine (agrees_lift _).bind fun name => (agrees_body hdecl word).bind fun body => ?_
  exact agrees_get.bind fun c => agrees_pure _

end Bodies

section Files

theorem agrees_decl
    (n : Nat) :
    Agrees n decl (readDecl (levelsLeft n)) :=
  agrees_nested rfl (fun _ _ => agrees_declaration) n

/-- Declarations are read as the recursion says. -/
theorem decl_eq :
    decl = descend (declaration decl) :=
  nested_eq rfl fun _ _ => agrees_declaration

/-- An item that is read outside of all others. -/
theorem agrees_item :
    Agrees 0 item readItem := by
  refine agrees_get.bind fun c => .ite ?_ ?_
  · exact (agrees_importLine 0).bind fun _ => agrees_pure _
  · exact (agrees_decl 0).bind fun _ => agrees_pure _

end Files

end Counter
end Tree
end Schemata
