import Schemata.Proofs.Token.Step

/-!
# Tokens tile the source

The lexer goes through the source step by step, and each step takes a token or a
gap.  So tokens and gaps lie side by side from the first byte to the last, and
whatever no token covers belongs to a gap.

**Results.** `tiles_lexFrom`, `lex_tiles`.
-/

namespace Schemata

section Bytes

theorem Text.byteLength_append
    (before after : List Char) :
    Text.byteLength (before ++ after) = Text.byteLength before + Text.byteLength after := by
  induction before with
  | nil => simp [Text.byteLength]
  | cons c before ih => simp [Text.byteLength, ih, Nat.add_assoc]

theorem Text.byteLength_pos
    {text : List Char}
    (h : text ≠ []) :
    0 < Text.byteLength text := by
  obtain ⟨c, rest, rfl⟩ := List.exists_cons_of_ne_nil h
  exact Nat.add_pos_left c.utf8Size_pos _

theorem Text.byteLength_ofList
    (text : List Char) :
    (String.ofList text).utf8ByteSize = Text.byteLength text := by
  induction text with
  | nil => rfl
  | cons c text ih =>
      rw [String.ofList_cons, String.utf8ByteSize_append, String.utf8ByteSize_singleton, ih,
        Text.byteLength]

end Bytes

namespace Token

section Tiles

/-- Tokens in their places and gaps lie side by side, from a byte offset to the end of the text. -/
inductive Tiles : Nat → List Char → List Placed → Prop
  | nil
      (offset : Nat) :
      Tiles offset [] []
  | gap
      {offset : Nat}
      {text after : List Char}
      {placed : List Placed}
      (hgap : Gap text after)
      (hrest : Tiles (offset + Text.byteLength text) after placed) :
      Tiles offset (text ++ after) placed
  | token
      {p : Placed}
      {after : List Char}
      {placed : List Placed}
      (hne : p.text ≠ [])
      (hpiece : Piece after (some p.token) p.text)
      (hrest : Tiles p.stop after placed) :
      Tiles p.start (p.text ++ after) (p :: placed)

/-- A step takes one piece, and the rest is tiled from where the piece ends. -/
theorem Tiles.step
    {offset : Nat}
    {token : Option Token}
    {text after : List Char}
    {placed : List Placed}
    (hne : text ≠ [])
    (hpiece : Piece after token text)
    (hrest : Tiles (offset + Text.byteLength text) after placed) :
    Tiles offset (text ++ after) (token.toList.map (⟨·, offset, text⟩) ++ placed) := by
  cases token with
  | none =>
      cases hpiece with
      | gap hgap => exact .gap hgap hrest
  | some token => exact .token (p := ⟨token, offset, text⟩) hne hpiece hrest

theorem lexFrom_cons
    (offset : Nat)
    (c : Char)
    (cs : List Char) :
    lexFrom offset (c :: cs) =
      (scan c cs).1.toList.map (⟨·, offset, c :: cs.take (scan c cs).2⟩) ++
        lexFrom (offset + Text.byteLength (c :: cs.take (scan c cs).2))
          (cs.drop (scan c cs).2) := by
  rw [lexFrom]
  obtain ⟨token, n⟩ := scan c cs
  cases token <;> rfl

/-- The first token of a text is what the first step takes. -/
theorem mem_lexFrom_of_scan
    (offset : Nat)
    {c : Char}
    {cs : List Char}
    {token : Token}
    (h : (scan c cs).1 = some token) :
    ⟨token, offset, c :: cs.take (scan c cs).2⟩ ∈ lexFrom offset (c :: cs) := by
  rw [lexFrom_cons, h]
  exact List.mem_append_left _ List.mem_cons_self

theorem tiles_lexFrom
    (offset : Nat)
    (cs : List Char) :
    Tiles offset cs (lexFrom offset cs) := by
  induction hn : cs.length using Nat.strong_induction_on generalizing offset cs with
  | _ n ih =>
      cases cs with
      | nil =>
          rw [lexFrom]
          exact .nil offset
      | cons c cs =>
          have hshorter : (cs.drop (scan c cs).2).length < n := by
            rw [← hn, List.length_drop, List.length_cons]
            omega
          have hrest := ih _ hshorter
            (offset + Text.byteLength (c :: cs.take (scan c cs).2)) _ rfl
          have htiles := Tiles.step (List.cons_ne_nil _ _) (scan_piece c cs) hrest
          rw [List.cons_append, List.take_append_drop] at htiles
          rwa [lexFrom_cons]

variable {offset : Nat}
variable {cs : List Char}
variable {placed : List Placed}

theorem Tiles.start_ge
    (h : Tiles offset cs placed) :
    ∀ p ∈ placed, offset ≤ p.start := by
  induction h with
  | nil => exact fun _ hp => absurd hp List.not_mem_nil
  | gap _ _ ih =>
      intro p hp
      have hle := ih p hp
      omega
  | @token p after placed _ _ _ ih =>
      intro q hq
      rcases List.mem_cons.mp hq with rfl | hq
      · exact le_rfl
      · have hle := ih q hq
        unfold Placed.stop at hle
        omega

theorem Tiles.pairwise
    (h : Tiles offset cs placed) :
    placed.Pairwise fun p q => p.stop ≤ q.start := by
  induction h with
  | nil => exact .nil
  | gap _ _ ih => exact ih
  | token _ _ hrest ih => exact List.pairwise_cons.mpr ⟨hrest.start_ge, ih⟩

/-- Each token stands in the text at its offset. -/
theorem Tiles.place
    (h : Tiles offset cs placed) :
    ∀ p ∈ placed, p.text ≠ [] ∧ ∃ before after, cs = before ++ p.text ++ after ∧
      offset + Text.byteLength before = p.start ∧ Piece after (some p.token) p.text := by
  induction h with
  | nil => exact fun _ hp => absurd hp List.not_mem_nil
  | @gap offset text after placed _ _ ih =>
      intro p hp
      obtain ⟨hne, before, rest, rfl, hstart, hpiece⟩ := ih p hp
      refine ⟨hne, text ++ before, rest, by simp only [List.append_assoc], ?_, hpiece⟩
      rw [Text.byteLength_append]
      omega
  | @token q after placed hne hpiece _ ih =>
      intro p hp
      rcases List.mem_cons.mp hp with rfl | hp
      · exact ⟨hne, [], after, rfl, rfl, hpiece⟩
      · obtain ⟨hne, before, rest, rfl, hstart, hpiece⟩ := ih p hp
        refine ⟨hne, q.text ++ before, rest, by simp only [List.append_assoc], ?_, hpiece⟩
        rw [Text.byteLength_append]
        unfold Placed.stop at hstart
        omega

/-- Whatever no token covers belongs to a gap beside the tokens. -/
theorem Tiles.covered
    (h : Tiles offset cs placed)
    {byte : Nat}
    (hle : offset ≤ byte)
    (hlt : byte < offset + Text.byteLength cs) :
    (∃ p ∈ placed, p.start ≤ byte ∧ byte < p.stop) ∨
      ∃ before text after, cs = before ++ text ++ after ∧ Gap text after ∧
        offset + Text.byteLength before ≤ byte ∧
        byte < offset + Text.byteLength before + Text.byteLength text ∧
        ∀ p ∈ placed, p.stop ≤ offset + Text.byteLength before ∨
          offset + Text.byteLength before + Text.byteLength text ≤ p.start := by
  induction h with
  | nil offset =>
      simp only [Text.byteLength] at hlt
      omega
  | @gap offset text after placed hgap hrest ih =>
      rw [Text.byteLength_append] at hlt
      by_cases hinside : byte < offset + Text.byteLength text
      · right
        refine ⟨[], text, after, rfl, hgap, hle, hinside, fun p hp => .inr ?_⟩
        exact hrest.start_ge p hp
      · rcases ih (by omega) (by omega) with hcovered |
          ⟨before, text', after', rfl, hgap', hle', hlt', hapart⟩
        · exact .inl hcovered
        · right
          refine ⟨text ++ before, text', after', by simp only [List.append_assoc], hgap', ?_⟩
          rw [Text.byteLength_append, ← Nat.add_assoc]
          exact ⟨hle', hlt', hapart⟩
  | @token q after placed _ _ hrest ih =>
      rw [Text.byteLength_append] at hlt
      by_cases hinside : byte < q.stop
      · exact .inl ⟨q, List.mem_cons_self, hle, hinside⟩
      · unfold Placed.stop at hinside
        rcases ih (by unfold Placed.stop; omega) (by unfold Placed.stop; omega) with
          ⟨p, hp, hcovered⟩ | ⟨before, text, after', rfl, hgap, hle', hlt', hapart⟩
        · exact .inl ⟨p, List.mem_cons_of_mem q hp, hcovered⟩
        · right
          refine ⟨q.text ++ before, text, after', by simp only [List.append_assoc], hgap, ?_⟩
          rw [Text.byteLength_append, ← Nat.add_assoc]
          refine ⟨hle', hlt', fun p hp => ?_⟩
          rcases List.mem_cons.mp hp with rfl | hp
          · left
            unfold Placed.stop
            omega
          · exact hapart p hp

end Tiles

/-- Tokens tile the source.

* Each token stands in the source at its offset and is not empty.  Unless it is a string literal,
  it is the longest text that a rule matches there, or it is one character at which no rule
  matches.
* Each token ends before the next begins.
* Each byte belongs to a token, or to white space or a plain comment beside the tokens. -/
theorem lex_tiles
    (source : String) :
    (∀ p ∈ lex source, p.start < p.stop ∧
      ∃ before after, source.toList = before ++ p.text ++ after ∧
        Text.byteLength before = p.start ∧
        (p.token.IsString → p.text.head? = some '\x22') ∧
        (¬p.token.IsString →
          (∃ rule, Makes rule p.text p.token ∧ LongestMatch rule p.text after) ∨
          ∃ c, p.token = .stray c ∧ p.text = [c] ∧
            ∀ (rule : Rule) (word : List Char), word ∈ rule.language →
              ¬ word <+: p.text ++ after)) ∧
      (lex source).Pairwise (fun p q => p.stop ≤ q.start) ∧
      ∀ byte < source.utf8ByteSize,
        (∃ p ∈ lex source, p.start ≤ byte ∧ byte < p.stop) ∨
          ∃ before text after, source.toList = before ++ text ++ after ∧ Gap text after ∧
            Text.byteLength before ≤ byte ∧
            byte < Text.byteLength before + Text.byteLength text ∧
            ∀ p ∈ lex source, p.stop ≤ Text.byteLength before ∨
              Text.byteLength before + Text.byteLength text ≤ p.start := by
  have htiles : Tiles 0 source.toList (lex source) := tiles_lexFrom 0 source.toList
  refine ⟨fun p hp => ?_, htiles.pairwise, fun byte hbyte => ?_⟩
  · obtain ⟨hne, before, after, hsource, hstart, hpiece⟩ := htiles.place p hp
    exact ⟨Nat.lt_add_of_pos_right (Text.byteLength_pos hne), before, after, hsource, by omega,
      hpiece.quote_of_isString, hpiece.longest_or_stray⟩
  · have hsize : Text.byteLength source.toList = source.utf8ByteSize := by
      rw [← Text.byteLength_ofList, String.ofList_toList]
    simpa only [Nat.zero_add] using htiles.covered (Nat.zero_le byte) (by omega)

end Token
end Schemata
