import Schemata.Proofs.Tree.Grammar

/-!
# What readers accept is in the grammar

A reader that succeeds has passed lexemes that make up a phrase, and its value
is what the phrase means.  The readers are taken from the smallest to the
largest, each by the phrases of the readers that it runs.

**Results.** `readTypeExpr_sound`, `readDecl_sound`, `readItem_sound`.
-/

namespace Schemata
namespace Tree

open Grammar

/-- A reader that succeeds has passed a phrase with its value. -/
def Sound
    {α : Type}
    (r : Reader α)
    (P : Phrase α) : Prop :=
  ∀ ⦃c a c'⦄, r c = .ok a c' → ∃ part, c.Passes part c' ∧ P part a

section Shapes

variable {α : Type}
variable {P : Phrase α}
variable {step : Reader α}

theorem eat_sound
    (symbol : Terminal) :
    Sound (eat symbol) (Flag symbol) := by
  intro c taken c' h
  rcases eat_eq_ok h with ⟨rfl, l, hl, hpass⟩ | ⟨rfl, rfl, -⟩
  · exact ⟨[l], hpass, .on hl⟩
  · exact ⟨[], rfl, .off⟩

theorem after_sound
    {symbol : Terminal}
    (hstep : Sound step P) :
    Sound (after symbol step) (Maybe (Led symbol P)) := by
  intro c found c' h
  rw [after, eat_bind_eq_ok_iff] at h
  rcases h with ⟨l, next, hl, hpass, h⟩ | ⟨-, h⟩
  · simp only [bind_eq_ok_iff, pure_eq_ok_iff] at h
    obtain ⟨a, stop, ha, rfl, rfl⟩ := h
    obtain ⟨part, hpart, hP⟩ := hstep ha
    exact ⟨l :: part, hpass.append hpart, .present (.mk hl hP)⟩
  · obtain ⟨rfl, rfl⟩ := pure_eq_ok_iff.mp h
    exact ⟨[], rfl, .absent⟩

/-- What one round of a loop passes, all rounds pass. -/
theorem repeatWhile_sound
    {more : Cursor → Bool}
    (hstep : ∀ ⦃c a c'⦄, more c = true → step c = .ok a c' →
      ∃ part, c.Passes part c' ∧ P part a)
    (rounds : Nat) :
    Sound (repeatWhile more step rounds) (Many P) := by
  induction rounds with
  | zero =>
      intro c as c' h
      obtain ⟨rfl, rfl⟩ := pure_eq_ok_iff.mp h
      exact ⟨[], rfl, .nil⟩
  | succ rounds ih =>
      intro c as c' h
      rw [repeatWhile, get_bind] at h
      by_cases hmore : more c = true
      · rw [if_pos hmore] at h
        simp only [bind_eq_ok_iff, pure_eq_ok_iff] at h
        obtain ⟨a, mid, ha, rest, stop, hrest, rfl, rfl⟩ := h
        obtain ⟨p, hp, hP⟩ := hstep hmore ha
        obtain ⟨q, hq, hmany⟩ := ih hrest
        exact ⟨p ++ q, hp.append hq, .cons hP hmany⟩
      · rw [if_neg hmore, pure_eq_ok_iff] at h
        obtain ⟨rfl, rfl⟩ := h
        exact ⟨[], rfl, .nil⟩

theorem whileMore_sound
    {more : Cursor → Bool}
    (hstep : ∀ ⦃c a c'⦄, more c = true → step c = .ok a c' →
      ∃ part, c.Passes part c' ∧ P part a) :
    Sound (whileMore more step) (Many P) := by
  intro c as c' h
  rw [whileMore, get_bind] at h
  exact repeatWhile_sound hstep _ h

theorem further_sound
    {mark : Punctuation}
    (hstep : Sound step P) :
    Sound (further mark step) (Many (Led (.punctuation mark) P)) := by
  refine whileMore_sound fun c a c' hmore h => ?_
  obtain ⟨l, hl, hpass⟩ := Cursor.exists_passes_of_peek? (Cursor.peek?_of_isAt hmore)
  rw [modify_bind] at h
  obtain ⟨part, hpart, hP⟩ := hstep h
  exact ⟨l :: part, hpass.append hpart, .mk hl hP⟩

theorem commaItems_sound
    {close : Punctuation}
    (hstep : Sound step P)
    (rounds : Nat) :
    Sound (commaItems close step rounds) (CommaList P) := by
  induction rounds with
  | zero =>
      intro c as c' h
      obtain ⟨rfl, rfl⟩ := pure_eq_ok_iff.mp h
      exact ⟨[], rfl, .nil⟩
  | succ rounds ih =>
      intro c as c' h
      rw [commaItems, get_bind] at h
      by_cases hclose : c.isAt (.punctuation close) = true
      · rw [if_pos hclose, pure_eq_ok_iff] at h
        obtain ⟨rfl, rfl⟩ := h
        exact ⟨[], rfl, .nil⟩
      · rw [if_neg hclose, bind_eq_ok_iff] at h
        obtain ⟨a, mid, ha, h⟩ := h
        obtain ⟨p, hp, hP⟩ := hstep ha
        rw [eatMark, eat_bind_eq_ok_iff] at h
        rcases h with ⟨l, next, hl, hpass, h⟩ | ⟨-, h⟩
        · simp only [bind_eq_ok_iff, pure_eq_ok_iff] at h
          obtain ⟨rest, stop, hrest, rfl, rfl⟩ := h
          obtain ⟨q, hq, hmany⟩ := ih hrest
          exact ⟨p ++ l :: q, hp.append (hpass.append hq), .cons hP hl hmany⟩
        · obtain ⟨rfl, rfl⟩ := pure_eq_ok_iff.mp h
          exact ⟨p, hp, .last hP⟩

theorem commaList_sound
    {close : Punctuation}
    (hstep : Sound step P) :
    Sound (commaList close step) (CommaList P) := by
  intro c as c' h
  rw [commaList, get_bind] at h
  exact commaItems_sound hstep _ h

theorem braced_sound
    (hstep : Sound step P) :
    Sound (braced step) (Braced P) := by
  intro c as c' h
  simp only [braced, expectMark, bind_eq_ok_iff, pure_eq_ok_iff, expect_eq_ok_iff] at h
  obtain ⟨-, c₁, ⟨l, hl, -, hpass⟩, items, c₂, hitems, -, c₃, ⟨r, hr, -, hstop⟩, rfl, rfl⟩ := h
  obtain ⟨part, hpart, hP⟩ := whileMore_sound (fun _ _ _ _ ha => hstep ha) hitems
  exact ⟨l :: part ++ [r], (hpass.append hpart).append hstop, .mk hl hP hr⟩

end Shapes

section Words

theorem readIdent_sound
    (expected : String) :
    Sound (readIdent expected) Ident := by
  intro c a c' h
  rw [readIdent, get_bind] at h
  generalize hpeek : c.peek? = front at h
  split at h
  · obtain ⟨l, hl, hpass, rfl⟩ := advance_bind_eq_ok hpeek h
    exact ⟨[l], hpass, .mk hl⟩
  · exact absurd h failExpecting_ne_ok

theorem readTypeIdent_sound
    (expected : String) :
    Sound (readTypeIdent expected) TypeIdent := by
  intro c a c' h
  rw [readTypeIdent, get_bind] at h
  generalize hpeek : c.peek? = front at h
  split at h
  · obtain ⟨l, hl, hpass, rfl⟩ := advance_bind_eq_ok hpeek h
    exact ⟨[l], hpass, .mk hl⟩
  · exact absurd h failExpecting_ne_ok

theorem readString_sound
    (expected : String) :
    Sound (readString expected) Text := by
  intro c a c' h
  rw [readString, get_bind] at h
  generalize hpeek : c.peek? = front at h
  split at h
  · obtain ⟨l, hl, hpass, rfl⟩ := advance_bind_eq_ok hpeek h
    exact ⟨[l], hpass, .mk hl⟩
  · exact absurd h failExpecting_ne_ok

theorem readLiteral_sound :
    Sound readLiteral Constant := by
  intro c a c' h
  rw [readLiteral, get_bind] at h
  generalize hpeek : c.peek? = front at h
  split at h
  · obtain ⟨l, hl, hpass, rfl⟩ := advance_bind_eq_ok hpeek h
    exact ⟨[l], hpass, .string hl⟩
  · rename_i text
    cases hnumber : Number.parse text with
    | ok number =>
        rw [hnumber] at h
        obtain ⟨l, hl, hpass, rfl⟩ := advance_bind_eq_ok hpeek h
        exact ⟨[l], hpass, .number hl hnumber⟩
    | error e =>
        rw [hnumber] at h
        cases h
  · obtain ⟨l, hl, hpass, rfl⟩ := advance_bind_eq_ok hpeek h
    exact ⟨[l], hpass, .yes hl⟩
  · obtain ⟨l, hl, hpass, rfl⟩ := advance_bind_eq_ok hpeek h
    exact ⟨[l], hpass, .no hl⟩
  · obtain ⟨l, hl, hpass, rfl⟩ := advance_bind_eq_ok hpeek h
    exact ⟨[l], hpass, .identifier hl⟩
  · exact absurd h failExpecting_ne_ok

end Words

section Types

theorem readQualifier_sound :
    Sound readQualifier (Maybe Qualifier) := by
  intro c found c' h
  rw [readQualifier, get_bind] at h
  generalize hpeek : c.peek? = front at h
  split at h
  · obtain ⟨l, hl, hpass⟩ := Cursor.exists_passes_of_peek? hpeek
    simp only [modify_bind, expectMark, bind_eq_ok_iff, pure_eq_ok_iff, expect_eq_ok_iff] at h
    obtain ⟨-, c₁, ⟨sep, hsep, -, hnext⟩, rfl, rfl⟩ := h
    exact ⟨[l, sep], hpass.append hnext, .present (.mk hl hsep)⟩
  · obtain ⟨rfl, rfl⟩ := pure_eq_ok_iff.mp h
    exact ⟨[], rfl, .absent⟩

theorem readTypeName_sound :
    Sound readTypeName Name := by
  intro c name c' h
  simp only [readTypeName, get_bind, bind_eq_ok_iff, pure_eq_ok_iff] at h
  obtain ⟨qualifier, c₁, hqualifier, first, c₂, hfirst, more, c₃, hmore, rfl, rfl⟩ := h
  obtain ⟨p, hp, hQualifier⟩ := readQualifier_sound hqualifier
  obtain ⟨q, hq, hFirst⟩ := readTypeIdent_sound _ hfirst
  obtain ⟨r, hr, hMore⟩ := further_sound (readTypeIdent_sound _) hmore
  have hpass := hp.append (hq.append hr)
  have hname := Name.mk rfl hQualifier (.mk hFirst hMore)
  refine ⟨p ++ (q ++ r), hpass, ?_⟩
  rwa [spanOf_of_passes hpass (starts_name.ne_nil hname)] at hname

/-- A type, by the levels that are left. -/
theorem readTypeExpr_sound
    (levels : Nat) :
    Sound (readTypeExpr levels) (TypeWithin levels) := by
  induction levels with
  | zero =>
      intro c type c' h
      cases h
  | succ levels ih =>
      intro c type c' h
      rw [readTypeExpr, get_bind] at h
      generalize hpeek : c.peek? = front at h
      split at h
      · obtain ⟨l, hl, hpass⟩ := Cursor.exists_passes_of_peek? hpeek
        rw [modify_bind, pure_eq_ok_iff] at h
        obtain ⟨rfl, rfl⟩ := h
        exact ⟨[l], hpass, .primitive hl⟩
      · obtain ⟨l, hl, hpass⟩ := Cursor.exists_passes_of_peek? hpeek
        simp only [modify_bind, expectMark, bind_eq_ok_iff, pure_eq_ok_iff,
          expect_eq_ok_iff] at h
        obtain ⟨item, c₁, hitem, -, c₂, ⟨r, hr, -, hstop⟩, rfl, rfl⟩ := h
        obtain ⟨p, hp, hItem⟩ := ih hitem
        exact ⟨l :: p ++ [r], (hpass.append hp).append hstop, .array (.mk hl hItem hr)⟩
      · obtain ⟨l, hl, hpass⟩ := Cursor.exists_passes_of_peek? hpeek
        simp only [modify_bind, expectMark, bind_eq_ok_iff, pure_eq_ok_iff,
          expect_eq_ok_iff] at h
        obtain ⟨key, c₁, hkey, -, c₂, ⟨colon, hcolon, -, hmid⟩, value, c₃, hvalue, -, c₄,
          ⟨r, hr, -, hstop⟩, rfl, rfl⟩ := h
        obtain ⟨p, hp, hKey⟩ := ih hkey
        obtain ⟨q, hq, hValue⟩ := ih hvalue
        exact ⟨l :: (p ++ colon :: q) ++ [r],
          (hpass.append (hp.append (hmid.append hq))).append hstop,
          .map (.mk hl (.mk hKey hcolon hValue) hr)⟩
      · obtain ⟨l, hl, hpass⟩ := Cursor.exists_passes_of_peek? hpeek
        simp only [modify_bind, bind_eq_ok_iff, pure_eq_ok_iff, expect_eq_ok_iff] at h
        obtain ⟨first, c₁, hfirst, more, c₂, hmore, -, c₃, ⟨r, hr, -, hstop⟩, rfl, rfl⟩ := h
        obtain ⟨p, hp, hFirst⟩ := ih hfirst
        obtain ⟨q, hq, hMore⟩ := further_sound ih hmore
        exact ⟨l :: (p ++ q) ++ [r], (hpass.append (hp.append hq)).append hstop,
          .tuple (.mk hl (.mk hFirst hMore) hr)⟩
      · simp only [bind_eq_ok_iff, pure_eq_ok_iff] at h
        obtain ⟨name, c₁, hname, rfl, rfl⟩ := h
        obtain ⟨p, hp, hName⟩ := readTypeName_sound hname
        exact ⟨p, hp, .name hName⟩
      · simp only [bind_eq_ok_iff, pure_eq_ok_iff] at h
        obtain ⟨name, c₁, hname, rfl, rfl⟩ := h
        obtain ⟨p, hp, hName⟩ := readTypeName_sound hname
        exact ⟨p, hp, .name hName⟩
      · exact absurd h failExpecting_ne_ok

theorem readType_sound
    (levels : Nat) :
    Sound (readType levels) (Placed (TypeWithin levels)) := by
  intro c found c' h
  simp only [readType, get_bind, bind_eq_ok_iff, pure_eq_ok_iff] at h
  obtain ⟨type, c₁, htype, rfl, rfl⟩ := h
  obtain ⟨p, hp, hType⟩ := readTypeExpr_sound levels htype
  rw [← spanOf_of_passes hp ((starts_typeWithin levels).ne_nil hType)]
  exact ⟨p, hp, .mk hType⟩

theorem readChannel_sound
    (levels : Nat) :
    Sound (readChannel levels) (Stream (TypeWithin levels)) := by
  intro c channel c' h
  simp only [readChannel, bind_eq_ok_iff, pure_eq_ok_iff] at h
  obtain ⟨streaming, c₁, hstreaming, type, c₂, htype, rfl, rfl⟩ := h
  obtain ⟨p, hp, hStreaming⟩ := eat_sound _ hstreaming
  obtain ⟨q, hq, hType⟩ := readType_sound levels htype
  exact ⟨p ++ q, hp.append hq, .mk hStreaming hType⟩

end Types

section Parts

theorem readRange_sound :
    Sound readRange (Maybe Text) := by
  intro c found c' h
  rw [readRange, get_bind] at h
  generalize hpeek : c.peek? = front at h
  split at h
  · simp only [bind_eq_ok_iff, pure_eq_ok_iff] at h
    obtain ⟨text, c₁, htext, rfl, rfl⟩ := h
    obtain ⟨p, hp, hText⟩ := readString_sound _ htext
    exact ⟨p, hp, .present hText⟩
  · obtain ⟨rfl, rfl⟩ := pure_eq_ok_iff.mp h
    exact ⟨[], rfl, .absent⟩

theorem readImport_sound
    {c c' : Cursor}
    {i : Import}
    (hfront : c.peek? = some (.keyword .useWord))
    (h : readImport c = .ok i c') :
    ∃ part, c.Passes part c' ∧ Use part i := by
  obtain ⟨use, huse, hpass⟩ := Cursor.exists_passes_of_peek? hfront
  rw [readImport, bind_of_ok _ (advance_of_passes hpass)] at h
  simp only [expectMark, bind_eq_ok_iff, pure_eq_ok_iff, expect_eq_ok_iff] at h
  obtain ⟨first, c₁, hfirst, more, c₂, hmore, range, c₃, hrange, alias?, c₄, halias, _, c₅,
    ⟨stop, hstop, rfl, hlast⟩, rfl, rfl⟩ := h
  obtain ⟨p, hp, hFirst⟩ := readIdent_sound _ hfirst
  obtain ⟨q, hq, hMore⟩ := further_sound (readIdent_sound _) hmore
  obtain ⟨r, hr, hRange⟩ := readRange_sound hrange
  obtain ⟨s, hs, hAlias⟩ := after_sound (readIdent_sound _) halias
  have hall : c.Passes (use :: (p ++ q) ++ r ++ s ++ [stop]) c₅ :=
    (((hpass.append (hp.append hq)).append hr).append hs).append hlast
  refine ⟨_, hall, ?_⟩
  rw [← hpass.span, ← hall.last, ← spanOf_of_passes hall (by simp)]
  exact .mk rfl huse (.mk hFirst hMore) hRange hAlias hstop

theorem readArgument_sound :
    Sound readArgument AttributeArgument := by
  intro c argument c' h
  simp only [readArgument, bind_eq_ok_iff, pure_eq_ok_iff] at h
  obtain ⟨name, c₁, hname, value, c₂, hvalue, rfl, rfl⟩ := h
  obtain ⟨p, hp, hName⟩ := readIdent_sound _ hname
  obtain ⟨q, hq, hValue⟩ := after_sound readLiteral_sound hvalue
  exact ⟨p ++ q, hp.append hq, .mk hName hValue⟩

theorem readArguments_sound
    {c c' : Cursor}
    {args : List Argument}
    (h : readArguments c = .ok args c') :
    ∃ part found, c.Passes part c' ∧ Maybe (Listed AttributeArgument) part found ∧
      found.getD [] = args := by
  rw [readArguments, eatMark, eat_bind_eq_ok_iff] at h
  rcases h with ⟨l, next, hl, hpass, h⟩ | ⟨-, h⟩
  · simp only [expectMark, bind_eq_ok_iff, pure_eq_ok_iff, expect_eq_ok_iff] at h
    obtain ⟨found, c₁, hfound, -, c₂, ⟨r, hr, -, hstop⟩, rfl, rfl⟩ := h
    obtain ⟨p, hp, hFound⟩ := commaList_sound readArgument_sound hfound
    exact ⟨l :: p ++ [r], some found, (hpass.append hp).append hstop,
      .present (.mk hl hFound hr), rfl⟩
  · obtain ⟨rfl, rfl⟩ := pure_eq_ok_iff.mp h
    exact ⟨[], none, rfl, .absent, rfl⟩

theorem readAttribute_sound
    {c c' : Cursor}
    {a : Attribute}
    (hfront : c.peek? = some (.punctuation .hash))
    (h : readAttribute c = .ok a c') :
    ∃ part, c.Passes part c' ∧ HashAttribute part a := by
  obtain ⟨hash, hhash, hpass⟩ := Cursor.exists_passes_of_peek? hfront
  rw [readAttribute, bind_of_ok _ (advance_of_passes hpass)] at h
  simp only [expectMark, bind_eq_ok_iff, pure_eq_ok_iff, expect_eq_ok_iff] at h
  obtain ⟨-, c₁, ⟨opening, hopening, -, hsecond⟩, name, c₂, hname, args, c₃, hargs, _, c₄,
    ⟨closing, hclosing, rfl, hlast⟩, rfl, rfl⟩ := h
  obtain ⟨p, hp, hName⟩ := readIdent_sound _ hname
  obtain ⟨q, found, hq, hArgs, rfl⟩ := readArguments_sound hargs
  have hall : c.Passes (hash :: opening :: p ++ q ++ [closing]) c₄ :=
    (((hpass.append hsecond).append hp).append hq).append hlast
  refine ⟨_, hall, ?_⟩
  rw [← hpass.span, ← hall.last, ← spanOf_of_passes hall (by simp)]
  exact .mk rfl hhash hopening hName hArgs hclosing

theorem readAttributes_sound :
    Sound readAttributes (Many HashAttribute) :=
  whileMore_sound fun _ _ _ hmore h => readAttribute_sound (Cursor.peek?_of_isAt hmore) h

theorem readFieldParts_sound
    (levels : Nat) :
    Sound (readFieldParts levels) (FieldParts (TypeWithin levels)) := by
  intro c field c' h
  simp only [readFieldParts, takeDoc_bind, get_bind, eatMark, expectMark, bind_eq_ok_iff,
    pure_eq_ok_iff, expect_eq_ok_iff, readIdent_clearDoc] at h
  obtain ⟨name, c₁, hname, optional, c₂, hoptional, -, c₃, ⟨colon, hcolon, -, hmid⟩, type, c₄,
    htype, alias?, c₅, halias, rfl, rfl⟩ := h
  obtain ⟨p, hp, hName⟩ := readIdent_sound _ hname
  obtain ⟨q, hq, hOptional⟩ := eat_sound _ hoptional
  obtain ⟨r, hr, hType⟩ := readType_sound levels htype
  obtain ⟨s, hs, hAlias⟩ := after_sound (readString_sound _) halias
  have hall : c.Passes (p ++ q ++ colon :: r ++ s) c₅ :=
    ((hp.append hq).append (hmid.append hr)).append hs
  refine ⟨_, hall, ?_⟩
  rw [hName.span hp, ← spanOf_of_passes hall (by simp), ← docOf_of_passes hall (by simp)]
  exact .mk rfl hName hOptional hcolon hType hAlias

theorem readField_sound
    (levels : Nat) :
    Sound (readField levels) (FieldLine (TypeWithin levels)) := by
  intro c field c' h
  simp only [readField, expectMark, bind_eq_ok_iff, pure_eq_ok_iff, expect_eq_ok_iff] at h
  obtain ⟨parts, c₁, hparts, _, c₂, ⟨stop, hstop, rfl, hlast⟩, rfl, rfl⟩ := h
  obtain ⟨p, hp, hParts⟩ := readFieldParts_sound levels hparts
  exact ⟨p ++ [stop], hp.append hlast, .mk hParts hstop⟩

theorem readEnumMember_sound :
    Sound readEnumMember EnumLine := by
  intro c member c' h
  simp only [readEnumMember, takeDoc_bind, expectMark, bind_eq_ok_iff, pure_eq_ok_iff,
    expect_eq_ok_iff, readTypeIdent_clearDoc] at h
  obtain ⟨name, c₁, hname, value, c₂, hvalue, _, c₃, ⟨stop, hstop, rfl, hlast⟩, rfl, rfl⟩ := h
  obtain ⟨p, hp, hName⟩ := readTypeIdent_sound _ hname
  obtain ⟨q, hq, hValue⟩ := after_sound readLiteral_sound hvalue
  have hall : c.Passes (p ++ q ++ [stop]) c₃ := (hp.append hq).append hlast
  refine ⟨_, hall, ?_⟩
  rw [hName.span hp, ← hall.last, ← spanOf_of_passes hall (by simp),
    ← docOf_of_passes hall (by simp)]
  exact .mk rfl hName hValue hstop

theorem readEndpointArgument_sound
    (levels : Nat) :
    Sound (readEndpointArgument levels) (ChannelArgument (TypeWithin levels)) := by
  intro c argument c' h
  simp only [readEndpointArgument, expectMark, bind_eq_ok_iff, pure_eq_ok_iff,
    expect_eq_ok_iff] at h
  obtain ⟨name, c₁, hname, -, c₂, ⟨colon, hcolon, -, hmid⟩, channel, c₃, hchannel, rfl, rfl⟩ := h
  obtain ⟨p, hp, hName⟩ := readIdent_sound _ hname
  obtain ⟨q, hq, hChannel⟩ := readChannel_sound levels hchannel
  exact ⟨p ++ colon :: q, hp.append (hmid.append hq), .mk hName hcolon hChannel⟩

theorem readEndpoint_sound
    (levels : Nat) :
    Sound (readEndpoint levels) (EndpointLine (TypeWithin levels)) := by
  intro c endpoint c' h
  simp only [readEndpoint, takeDoc_bind, expectMark, bind_eq_ok_iff, pure_eq_ok_iff,
    expect_eq_ok_iff, readIdent_clearDoc] at h
  obtain ⟨name, c₁, hname, -, c₂, ⟨l, hl, -, hleft⟩, arguments, c₃, harguments, -, c₄,
    ⟨r, hr, -, hright⟩, response, c₅, hresponse, alias?, c₆, halias, _, c₇,
    ⟨stop, hstop, rfl, hlast⟩, rfl, rfl⟩ := h
  obtain ⟨p, hp, hName⟩ := readIdent_sound _ hname
  obtain ⟨q, hq, hArguments⟩ := commaList_sound (readEndpointArgument_sound levels) harguments
  obtain ⟨s, hs, hResponse⟩ := after_sound (readChannel_sound levels) hresponse
  obtain ⟨t, ht, hAlias⟩ := after_sound (readString_sound _) halias
  have hall : c.Passes (p ++ (l :: q ++ [r]) ++ s ++ t ++ [stop]) c₇ :=
    (((hp.append ((hleft.append hq).append hright)).append hs).append ht).append hlast
  refine ⟨_, hall, ?_⟩
  rw [hName.span hp, ← hall.last, ← spanOf_of_passes hall (by simp),
    ← docOf_of_passes hall (by simp)]
  exact .mk rfl hName (.mk hl hArguments hr) hResponse hAlias hstop

end Parts

section Bodies

variable {decl : Reader Decl}
variable {D : Phrase Decl}
variable (hdecl : Sound decl D)
variable (levels : Nat)
include hdecl

theorem readMember_sound :
    Sound (readMember decl levels) (MemberOver D (TypeWithin levels)) := by
  intro c member c' h
  rw [readMember, get_bind] at h
  generalize hpeek : c.peek? = front at h
  split at h
  · simp only [bind_eq_ok_iff, pure_eq_ok_iff] at h
    obtain ⟨field, c₁, hfield, rfl, rfl⟩ := h
    obtain ⟨p, hp, hField⟩ := readField_sound levels hfield
    exact ⟨p, hp, .field hField⟩
  · split at h
    · simp only [bind_eq_ok_iff, pure_eq_ok_iff] at h
      obtain ⟨d, c₁, hd, rfl, rfl⟩ := h
      obtain ⟨p, hp, hD⟩ := hdecl hd
      exact ⟨p, hp, .decl hD⟩
    · exact absurd h failExpecting_ne_ok
  · exact absurd h failExpecting_ne_ok

theorem readMembers_sound :
    Sound (readMembers decl levels) (Braced (MemberOver D (TypeWithin levels))) :=
  braced_sound (readMember_sound hdecl levels)

theorem readTupleMembers_sound :
    Sound (readTupleMembers decl levels) (TupleBody D (TypeWithin levels)) := by
  intro c members c' h
  rw [readTupleMembers, eatMark, eat_bind_eq_ok_iff] at h
  rcases h with ⟨l, next, hl, hpass, h⟩ | ⟨-, h⟩
  · simp only [eatMark, bind_eq_ok_iff, pure_eq_ok_iff, expect_eq_ok_iff] at h
    obtain ⟨fields, c₁, hfields, -, c₂, ⟨r, hr, -, hright⟩, ended, c₃, hended, rfl, rfl⟩ := h
    obtain ⟨p, hp, hFields⟩ := commaList_sound (readFieldParts_sound levels) hfields
    obtain ⟨q, hq, hEnded⟩ := eat_sound _ hended
    exact ⟨l :: p ++ [r] ++ q, ((hpass.append hp).append hright).append hq,
      .inline (.mk hl hFields hr) hEnded⟩
  · obtain ⟨p, hp, hMembers⟩ := readMembers_sound hdecl levels h
    exact ⟨p, hp, .braced hMembers⟩

theorem readSubTypeMembers_sound :
    Sound (readSubTypeMembers decl levels) (SubTypeBody D (TypeWithin levels)) := by
  intro c members c' h
  rw [readSubTypeMembers, get_bind] at h
  by_cases hopen : c.isAt (.punctuation .openBrace) = true
  · rw [if_pos hopen] at h
    obtain ⟨p, hp, hMembers⟩ := readMembers_sound hdecl levels h
    exact ⟨p, hp, .braced hMembers⟩
  · rw [if_neg hopen] at h
    simp only [bind_eq_ok_iff, pure_eq_ok_iff, expect_eq_ok_iff] at h
    obtain ⟨-, c₁, ⟨l, hl, -, hpass⟩, rfl, rfl⟩ := h
    exact ⟨[l], hpass, .empty hl⟩

theorem readSubType_sound :
    Sound (readSubType decl levels) (SubTypeOver D (TypeWithin levels)) := by
  intro c found c' h
  simp only [readSubType, takeDoc_bind, get_bind, bind_eq_ok_iff, pure_eq_ok_iff,
    readTypeIdent_clearDoc] at h
  obtain ⟨name, c₁, hname, alias?, c₂, halias, members, c₃, hmembers, rfl, rfl⟩ := h
  obtain ⟨p, hp, hName⟩ := readTypeIdent_sound _ hname
  obtain ⟨q, hq, hAlias⟩ := after_sound readLiteral_sound halias
  obtain ⟨r, hr, hMembers⟩ := readSubTypeMembers_sound hdecl levels hmembers
  have hall : c.Passes (p ++ q ++ r) c₃ := (hp.append hq).append hr
  have hne : p ++ q ++ r ≠ [] := by
    simp [starts_typeIdent.ne_nil hName]
  refine ⟨_, hall, ?_⟩
  rw [hName.span hp, ← spanOf_of_passes hall hne, ← docOf_of_passes hall hne]
  exact .mk rfl hName hAlias hMembers

theorem readInterfaceItem_sound :
    Sound (readInterfaceItem decl levels) (InterfaceLine D (TypeWithin levels)) := by
  intro c item c' h
  rw [readInterfaceItem, get_bind] at h
  generalize hpeek : c.peek? = front at h
  split at h
  · simp only [bind_eq_ok_iff, pure_eq_ok_iff] at h
    obtain ⟨s, c₁, hs, rfl, rfl⟩ := h
    obtain ⟨p, hp, hSubType⟩ := readSubType_sound hdecl levels hs
    exact ⟨p, hp, .subType hSubType⟩
  · simp only [bind_eq_ok_iff, pure_eq_ok_iff] at h
    obtain ⟨m, c₁, hm, rfl, rfl⟩ := h
    obtain ⟨p, hp, hMember⟩ := readMember_sound hdecl levels hm
    exact ⟨p, hp, .member hMember⟩

theorem readServiceItem_sound :
    Sound (readServiceItem decl levels) (ServiceLine D (TypeWithin levels)) := by
  intro c item c' h
  rw [readServiceItem, get_bind] at h
  generalize hpeek : c.peek? = front at h
  split at h
  · simp only [bind_eq_ok_iff, pure_eq_ok_iff] at h
    obtain ⟨e, c₁, he, rfl, rfl⟩ := h
    obtain ⟨p, hp, hEndpoint⟩ := readEndpoint_sound levels he
    exact ⟨p, hp, .endpoint hEndpoint⟩
  · split at h
    · simp only [bind_eq_ok_iff, pure_eq_ok_iff] at h
      obtain ⟨d, c₁, hd, rfl, rfl⟩ := h
      obtain ⟨p, hp, hD⟩ := hdecl hd
      exact ⟨p, hp, .decl hD⟩
    · exact absurd h failExpecting_ne_ok
  · exact absurd h failExpecting_ne_ok

theorem readBody_sound
    (word : DeclWord) :
    Sound (readBody decl levels word) (BodyOver D (TypeWithin levels) word) := by
  intro c body c' h
  cases word with
  | type =>
      simp only [readBody, bind_eq_ok_iff, pure_eq_ok_iff] at h
      obtain ⟨members, c₁, hmembers, rfl, rfl⟩ := h
      obtain ⟨p, hp, hMembers⟩ := readMembers_sound hdecl levels hmembers
      exact ⟨p, hp, .type hMembers⟩
  | tuple =>
      simp only [readBody, bind_eq_ok_iff, pure_eq_ok_iff] at h
      obtain ⟨members, c₁, hmembers, rfl, rfl⟩ := h
      obtain ⟨p, hp, hMembers⟩ := readTupleMembers_sound hdecl levels hmembers
      exact ⟨p, hp, .tuple hMembers⟩
  | interface =>
      simp only [readBody, bind_eq_ok_iff, pure_eq_ok_iff] at h
      obtain ⟨items, c₁, hitems, rfl, rfl⟩ := h
      obtain ⟨p, hp, hItems⟩ := braced_sound (readInterfaceItem_sound hdecl levels) hitems
      exact ⟨p, hp, .interface hItems⟩
  | enum =>
      simp only [readBody, bind_eq_ok_iff, pure_eq_ok_iff] at h
      obtain ⟨type, c₁, htype, members, c₂, hmembers, rfl, rfl⟩ := h
      obtain ⟨p, hp, hType⟩ := after_sound (readType_sound levels) htype
      obtain ⟨q, hq, hMembers⟩ := braced_sound readEnumMember_sound hmembers
      exact ⟨p ++ q, hp.append hq, .enum hType hMembers⟩
  | service =>
      simp only [readBody, bind_eq_ok_iff, pure_eq_ok_iff] at h
      obtain ⟨items, c₁, hitems, rfl, rfl⟩ := h
      obtain ⟨p, hp, hItems⟩ := braced_sound (readServiceItem_sound hdecl levels) hitems
      exact ⟨p, hp, .service hItems⟩

end Bodies

section Declarations

theorem readDeclWord_sound :
    Sound readDeclWord Word := by
  intro c word c' h
  rw [readDeclWord, get_bind] at h
  generalize hpeek : c.peek? = front at h
  split at h
  · rename_i keyword
    cases hkind : DeclWord.ofKeyword? keyword with
    | some kind =>
        rw [hkind] at h
        obtain ⟨l, hl, hpass⟩ := Cursor.exists_passes_of_peek? hpeek
        obtain ⟨rfl, rfl⟩ := pure_eq_ok_iff.mp h
        exact ⟨[l], hpass, .mk hl hkind⟩
    | none =>
        rw [hkind] at h
        exact absurd h failExpecting_ne_ok
  · cases h
  · exact absurd h failExpecting_ne_ok

/-- The head of a declaration, from its attributes to its keyword. -/
theorem head_sound
    {c c₁ c₂ : Cursor}
    {attributes : List Attribute}
    {word : DeclWord}
    (hattributes : readAttributes c.clearDoc = .ok attributes c₁)
    (hword : readDeclWord c₁ = .ok word c₂) :
    ∃ p q, c.Passes (p ++ q) c₂ ∧ Many HashAttribute p attributes ∧ Word q word := by
  by_cases hfront : c.peek? = some (.punctuation .hash)
  · rw [readAttributes_clearDoc hfront] at hattributes
    obtain ⟨p, hp, hAttributes⟩ := readAttributes_sound hattributes
    obtain ⟨q, hq, hWord⟩ := readDeclWord_sound hword
    exact ⟨p, q, hp.append hq, hAttributes, hWord⟩
  · rw [readAttributes_of_ne (by rwa [Cursor.peek?_clearDoc])] at hattributes
    cases hattributes
    obtain ⟨q, hq, hWord⟩ := readDeclWord_sound (readDeclWord_clearDoc.mp hword)
    exact ⟨[], q, hq, .nil, hWord⟩

theorem readDeclWith_sound
    {decl : Reader Decl}
    {D : Phrase Decl}
    (hdecl : Sound decl D)
    (levels : Nat) :
    Sound (readDeclWith decl levels) (DeclOver D (TypeWithin levels)) := by
  intro c found c' h
  simp only [readDeclWith, takeDoc_bind, get_bind, bind_eq_ok_iff, pure_eq_ok_iff,
    Cursor.span_clearDoc] at h
  obtain ⟨attributes, c₁, hattributes, word, c₂, hword, name, c₃, hname, body, c₄, hbody, rfl,
    rfl⟩ := h
  obtain ⟨p, q, hpq, hAttributes, hWord⟩ := head_sound hattributes hword
  obtain ⟨r, hr, hName⟩ := readTypeIdent_sound _ hname
  obtain ⟨s, hs, hBody⟩ := readBody_sound hdecl levels word hbody
  have hall : c.Passes (p ++ q ++ r ++ s) c₄ := (hpq.append hr).append hs
  have hne : p ++ q ++ r ++ s ≠ [] := by
    simp [starts_typeIdent.ne_nil hName]
  refine ⟨_, hall, ?_⟩
  rw [← spanOf_of_passes hall hne, ← docOf_of_passes hall hne]
  exact .mk rfl hAttributes hWord hName hBody

/-- A declaration, by the levels that are left. -/
theorem readDecl_sound
    (levels : Nat) :
    Sound (readDecl levels) (DeclWithin levels) := by
  induction levels with
  | zero =>
      intro c d c' h
      cases h
  | succ levels ih =>
      exact readDeclWith_sound ih levels

theorem readItem_sound :
    Sound readItem FileItem := by
  intro c item c' h
  rw [readItem, get_bind] at h
  by_cases huse : c.isAt (.keyword .useWord) = true
  · rw [if_pos huse] at h
    simp only [bind_eq_ok_iff, pure_eq_ok_iff] at h
    obtain ⟨i, c₁, hi, rfl, rfl⟩ := h
    obtain ⟨p, hp, hUse⟩ := readImport_sound (Cursor.peek?_of_isAt huse) hi
    exact ⟨p, hp, .imported hUse⟩
  · rw [if_neg huse] at h
    simp only [bind_eq_ok_iff, pure_eq_ok_iff] at h
    obtain ⟨d, c₁, hd, rfl, rfl⟩ := h
    obtain ⟨p, hp, hDecl⟩ := readDecl_sound maxNesting hd
    exact ⟨p, hp, .decl hDecl⟩

end Declarations

end Tree
end Schemata
