import Schemata.Proofs.Text.Line
import Schemata.Proofs.Token.Tiling

/-!
# Documentation in a source text

A documentation comment goes on to the end of its line.  Its text is the comment
without one carriage return at the end and one blank at the beginning, so that it
has no line feed, and any other character can be in it.

**Results.**
* `documentation_of_mem_lex`: the text of a documentation comment.
* `exists_documentation_iff`: which texts are the text of one.
-/

namespace Schemata
namespace Token

/-- The text of a documentation comment. -/
def documentation? : Token → Option String
  | .doc text | .packageDoc text => some text
  | _ => none

section Comments

variable (comment : List Char)

theorem docText_eq_or :
    (docText comment).toList = Text.dropReturn comment ∨
      ' ' :: (docText comment).toList = Text.dropReturn comment := by
  unfold docText
  split
  next rest heq => exact .inr (by rw [heq, String.toList_ofList])
  next => exact .inl String.toList_ofList

theorem mem_docText_iff
    {c : Char}
    (hc : c ≠ ' ') :
    c ∈ (docText comment).toList ↔ c ∈ Text.dropReturn comment := by
  rcases docText_eq_or comment with heq | heq
  · rw [heq]
  · rw [← heq, List.mem_cons, or_iff_right hc]

/-- A text is what is left of it with a blank before it and a carriage return after it. -/
theorem docText_framed
    (text : String) :
    docText (' ' :: (text.toList ++ ['\r'])) = text := by
  have hdrop : Text.dropReturn (' ' :: (text.toList ++ ['\r'])) = ' ' :: text.toList :=
    Text.dropReturn_concat (' ' :: text.toList)
  rw [docText, hdrop]
  exact String.ofList_toList

end Comments

/-- Documentation is the text of a comment, which goes on to the end of its line. -/
theorem documentation_of_mem_lex
    {source text : String}
    {p : Placed}
    (hp : p ∈ lex source)
    (htext : p.token.documentation? = some text) :
    ∃ kind ∈ ['/', '!'], ∃ comment, p.text = '/' :: '/' :: kind :: comment ∧
      text = docText comment ∧ '\n' ∉ comment := by
  obtain ⟨-, before, after, -, -, hpiece⟩ := (tiles_lexFrom 0 source.toList).place p hp
  have hstring : ¬ p.token.IsString := by
    intro hstring
    cases htoken : p.token with
    | terminal | unterminated | invalidEscape | stray =>
        rw [htoken] at htext
        cases htext
    | doc | packageDoc =>
        rw [htoken] at hstring
        exact hstring
  rcases hpiece.longest_or_stray hstring with ⟨rule, hmakes, hlongest⟩ | ⟨c, hstray, -⟩
  · have hmatched := hlongest.matched
    generalize p.token = token, p.text = whole at htext hmakes hmatched
    have hline : ∀ {kind comment}, '/' :: '/' :: kind :: comment ∈ Rule.comment.language →
        '\n' ∉ comment := by
      intro kind comment hmem hfeed
      obtain ⟨front, hfront, rest, hrest, heq⟩ := Language.mem_mul.mp hmem
      obtain rfl : front = ['/', '/'] := hfront
      have hmem : '\n' ∈ rest := by
        simp only [List.cons_append, List.nil_append, List.cons.injEq, true_and] at heq
        exact heq ▸ List.mem_cons_of_mem _ hfeed
      exact absurd (mem_star_oneOf.mp hrest _ hmem) (by decide)
    cases hmakes with
    | ident | typeIdent | number | keyword | punctuation =>
        cases htext
    | doc comment =>
        obtain rfl := Option.some.inj htext
        exact ⟨'/', by simp, comment, rfl, rfl, hline hmatched⟩
    | packageDoc comment =>
        obtain rfl := Option.some.inj htext
        exact ⟨'!', by simp, comment, rfl, rfl, hline hmatched⟩
  · rw [hstray] at htext
    cases htext

theorem feed_notMem_documentation
    {source text : String}
    {p : Placed}
    (hp : p ∈ lex source)
    (htext : p.token.documentation? = some text) :
    '\n' ∉ text.toList := by
  obtain ⟨kind, -, comment, -, rfl, hline⟩ := documentation_of_mem_lex hp htext
  rw [mem_docText_iff comment (by decide)]
  exact fun hmem => hline ((Text.dropReturn_prefix comment).subset hmem)

/-- A line of documentation is one token. -/
theorem lex_documentation
    {text : String}
    (hfeed : '\n' ∉ text.toList) :
    (lex ("/// " ++ text ++ "\r")).map (·.token) = [.doc text] := by
  have hline : ∀ c ∈ '/' :: ' ' :: (text.toList ++ ['\r']), (c != '\n') = true := by
    intro c hc
    refine bne_iff_ne.mpr ?_
    rintro rfl
    simp [hfeed] at hc
  have hrun : run (· != '\n') ('/' :: ' ' :: (text.toList ++ ['\r'])) =
      ('/' :: ' ' :: (text.toList ++ ['\r'])).length := by
    rw [run, List.takeWhile_eq_self_iff.mpr hline]
  have hsource : ("/// " ++ text ++ "\r").toList =
      '/' :: '/' :: '/' :: ' ' :: (text.toList ++ ['\r']) := by
    simp
  have hscan : scan '/' ('/' :: '/' :: ' ' :: (text.toList ++ ['\r'])) =
      (some (.doc text), ('/' :: '/' :: ' ' :: (text.toList ++ ['\r'])).length) := by
    rw [scan_comment, hrun, List.take_length, ofComment?, docText_framed]
    rfl
  rw [lex, hsource, lexFrom_cons, hscan, List.drop_length, lexFrom]
  rfl

/-- The texts of documentation are those on one line of the source. -/
theorem exists_documentation_iff
    {text : String} :
    (∃ source, ∃ p ∈ lex source, p.token.documentation? = some text) ↔ '\n' ∉ text.toList := by
  constructor
  · rintro ⟨source, p, hp, htext⟩
    exact feed_notMem_documentation hp htext
  · intro hfeed
    have hmem : Token.doc text ∈ (lex ("/// " ++ text ++ "\r")).map (·.token) := by
      rw [lex_documentation hfeed]
      exact List.mem_singleton_self _
    obtain ⟨p, hp, htoken⟩ := List.mem_map.mp hmem
    exact ⟨_, p, hp, by rw [htoken]; rfl⟩

end Token
end Schemata
