import Schemata.Proofs.Emit.Account
import Schemata.Proofs.Emit.Line
import Schemata.Proofs.Target.NestedClass
import Schemata.Proofs.Target.SwiftScope
import Schemata.Proofs.Token.Documentation

/-!
# Documentation in generated files

A line of documentation is written behind the mark of a comment, and from the
code of its declaration it comes into a file as a line of its own.  Where the
comment ends is for the target to say, and each target has other characters for
it than the line feed.  So a line of documentation is a comment up to the first
of these that the documentation brings along.

**Results.**
* `Target.Writer.hasLine_assemble`: documentation comes into the file line by line.
* `Target.Writer.comment_eq_iff`: when such a line is one comment.
* `emit_documentation`: both, with what the documentation of a source can bring along.
-/

namespace Schemata
namespace Target

/-- How a backend writes files, and what a comment is in its language. -/
structure Writer where
  backend : Backend
  /-- The indentation of one level. -/
  unit : String
  /-- What begins a comment. -/
  mark : String
  /-- The characters that end a comment. -/
  ends : List Char
  /-- The code of an outermost declaration. -/
  code : Schema → Placement → DeclId → Code
  text_eq : ∀ s placement root,
    backend.text s placement root = Code.render unit (code s placement root)
  embeds : ∀ s path fragments, ∀ f ∈ fragments, ∃ whole : Code,
    backend.assemble s path fragments = Code.render unit whole ∧ whole.Has (· = Code.embed f.text)
  unit_blank : ∀ c ∈ unit.toList, c = ' '
  mark_ne : mark ≠ ""
  mark_free : ∀ c ∈ mark.toList ++ [' '], c ∉ ends
  ends_feed : '\n' ∈ ends
  ends_return : '\r' ∈ ends

section Writers

open Code (Has)

theorem has_embed_flatMap
    {fragments : List Fragment}
    {f : Fragment}
    (hf : f ∈ fragments) :
    Has (· = Code.embed f.text) (fragments.flatMap fun f => Code.blank ++ Code.embed f.text) := by
  have hwhole : Has (· = Code.embed f.text) (Code.embed f.text) := Has.whole rfl
  exact Has.flatMap (a := f) (hwhole.append_right Code.blank) hf

theorem has_embed_separated
    {fragments : List Fragment}
    {f : Fragment}
    (hf : f ∈ fragments) :
    Has (· = Code.embed f.text) (CSharp.separated fragments) := by
  have hwhole : Has (· = Code.embed f.text) (Code.embed f.text) := Has.whole rfl
  induction fragments using CSharp.separated.induct with
  | case1 =>
      cases hf
  | case2 last =>
      obtain rfl := List.mem_singleton.mp hf
      exact hwhole
  | case3 first rest hne ih =>
      rw [CSharp.separated]
      rcases List.mem_cons.mp hf with rfl | hf
      · exact (hwhole.append_left _).append_left _
      · exact (ih hf).append_right _
      · exact hne

/-- The writer of C# files. -/
def csharpWriter : Writer where
  backend := csharp
  unit := "    "
  mark := "///"
  ends := ['\n', '\r', '\u0085', '\u2028', '\u2029']
  code := fun s placement root => (s.nesting root).fold (CSharp.declCode s placement)
  text_eq := fun _ _ _ => rfl
  embeds := by
    intro s path fragments f hf
    obtain ⟨first, rest, rfl⟩ := List.exists_cons_of_ne_nil (List.ne_nil_of_mem hf)
    simp only [csharp, CSharp.assemble]
    refine ⟨_, rfl, Has.append_right (Has.block ?_ _) _⟩
    exact has_embed_separated hf
  unit_blank := by simp
  mark_ne := by simp
  mark_free := by simp
  ends_feed := by simp
  ends_return := by simp

/-- The writer of Swift files. -/
def swiftWriter : Writer where
  backend := swift
  unit := "  "
  mark := "///"
  ends := ['\n', '\r']
  code := fun s _ root => Swift.declCode s root
  text_eq := fun _ _ _ => rfl
  embeds := fun _ _ _ _ hf => ⟨_, rfl, Has.append_right (has_embed_flatMap hf) _⟩
  unit_blank := by simp
  mark_ne := by simp
  mark_free := by simp
  ends_feed := by simp
  ends_return := by simp

/-- The writer of JavaScript files. -/
def javascriptWriter : Writer where
  backend := javascript
  unit := "  "
  mark := "//"
  ends := ['\n', '\r', '\u2028', '\u2029']
  code := fun s placement root =>
    (s.withDescendants root).flatMap (JavaScript.declCode s placement)
  text_eq := fun _ _ _ => rfl
  embeds := fun _ _ _ _ hf => ⟨_, rfl, Has.append_right (has_embed_flatMap hf) _⟩
  unit_blank := by simp
  mark_ne := by simp
  mark_free := by simp
  ends_feed := by simp
  ends_return := by simp

/-- The writers of all backends. -/
def writers : List Writer :=
  [csharpWriter, swiftWriter, javascriptWriter]

theorem map_backend_writers :
    writers.map (·.backend) = all :=
  rfl

theorem backend_mem_all
    {w : Writer}
    (hw : w ∈ writers) :
    w.backend ∈ all :=
  map_backend_writers ▸ List.mem_map_of_mem hw

end Writers

/-- A declaration that is not refused is in a file. -/
theorem exists_file
    {s : Schema}
    {options : EmitOptions}
    {b : Backend}
    (hb : b ∈ all)
    {root : DeclId}
    (hroot : root ∈ Emit.roots s options)
    (haccepted : b.error? s root = none) :
    ∃ file ∈ (emit s all options).files, file.backend = b.name ∧ file.path = b.path s root ∧
      ∃ fragments : List Fragment, ⟨root, b.text s options.placement root⟩ ∈ fragments ∧
        file.contents = b.assemble s (b.path s root) fragments := by
  have hnames : (all.map (·.name)).Nodup := by
    decide
  have hbundle := (Emit.mem_bundles s options hnames _).mpr ⟨b, hb, root, hroot, haccepted, rfl⟩
  have hmem : root ∈ (Emit.bundle s options b (b.path s root)).decls :=
    List.mem_filter.mpr ⟨hroot, by simp [Emit.writes, haccepted]⟩
  refine ⟨(Emit.bundle s options b (b.path s root)).file s options.placement, ?_, rfl, rfl, _,
    ?_, rfl⟩
  · rw [Emit.files_eq_bundles s options hnames]
    exact List.mem_map_of_mem hbundle
  · exact List.mem_map.mpr ⟨root, hmem, rfl⟩

namespace Writer

variable (w : Writer)

/-- A line of documentation as it comes into a file. -/
def line
    (text : String) :
    List Char :=
  Text.dropReturn (Code.docLine w.mark text).toList

/-- The comment that begins with a text. -/
def comment
    (cs : List Char) :
    List Char :=
  cs.takeWhile fun c => !w.ends.contains c

theorem mark_plain
    {c : Char}
    (hc : c ∈ w.mark.toList) :
    c ∉ w.ends :=
  w.mark_free c (List.mem_append_left _ hc)

theorem toList_mark_ne_nil :
    w.mark.toList ≠ [] := by
  simpa using w.mark_ne

/-- A line of documentation is the mark alone, or the mark, a blank and the text. -/
theorem line_eq_or
    (text : String) :
    text = "" ∧ w.line text = w.mark.toList ∨
      w.line text = w.mark.toList ++ ' ' :: Text.dropReturn text.toList := by
  by_cases hempty : text = ""
  · subst hempty
    have hmark : '\r' ∉ w.mark.toList := fun hmem => w.mark_plain hmem w.ends_return
    exact .inl ⟨rfl, Text.dropReturn_of_notMem hmark⟩
  · right
    have hne : text.toList ≠ [] := by simpa using hempty
    have hblank : Text.dropReturn (' ' :: text.toList) = ' ' :: Text.dropReturn text.toList :=
      Text.dropReturn_append [' '] hne
    rw [line, Code.toList_docLine _ hempty, Text.dropReturn_append _ (List.cons_ne_nil _ _), hblank]

theorem line_ne_nil
    (text : String) :
    w.line text ≠ [] := by
  rcases w.line_eq_or text with ⟨-, heq⟩ | heq
  · rw [heq]
    exact w.toList_mark_ne_nil
  · simp [heq]

theorem docLine_ne
    (text : String) :
    Code.docLine w.mark text ≠ "" := by
  intro hempty
  have hline := w.line_ne_nil text
  rw [line, hempty] at hline
  exact hline rfl

theorem feed_notMem_docLine
    {text : String}
    (hfeed : '\n' ∉ text.toList) :
    '\n' ∉ (Code.docLine w.mark text).toList := by
  have hmark : '\n' ∉ w.mark.toList := fun hmem => w.mark_plain hmem w.ends_feed
  by_cases hempty : text = ""
  · subst hempty
    exact hmark
  · rw [Code.toList_docLine _ hempty]
    simp [hmark, hfeed]

/-- Documentation without line feeds comes into the file line by line. -/
theorem hasLine_assemble
    {s : Schema}
    {placement : Placement}
    {root : DeclId}
    {texts : List String}
    (hcode : (w.code s placement root).Has (· = Code.doc w.mark texts))
    {text : String}
    (htext : text ∈ texts)
    (hfeed : '\n' ∉ text.toList)
    {fragments : List Fragment}
    (hroot : ⟨root, w.backend.text s placement root⟩ ∈ fragments)
    (path : List String) :
    ∃ indent, (∀ c ∈ indent, c = ' ') ∧
      Text.HasLine (indent ++ w.line text) (w.backend.assemble s path fragments).toList := by
  have hne : (Code.docLine w.mark text).toList ≠ [] := by simpa using w.docLine_ne text
  have hblank : ∀ {n c}, c ∈ (Text.times n w.unit).toList → c = ' ' := fun hc =>
    w.unit_blank _ (Code.mem_times w.unit hc)
  -- first the line of the fragment
  obtain ⟨inner, hinner⟩ := Code.exists_hasLine_render w.unit
    (hcode.trans fun part hpart => hpart ▸ Code.has_line_doc w.mark htext)
  rw [← w.text_eq, Code.toList_lineAt w.unit inner (w.docLine_ne text)] at hinner
  have hpiece := Text.mem_lines_of_hasLine hinner fun hmem =>
    (List.mem_append.mp hmem).elim (fun hmem => absurd (hblank hmem) (by decide))
      (w.feed_notMem_docLine hfeed)
  rw [Text.dropReturn_append _ hne, ← line] at hpiece
  -- then that of the file
  obtain ⟨whole, hwhole, hembed⟩ := w.embeds s path fragments _ hroot
  obtain ⟨outer, houter⟩ := Code.exists_hasLine_render w.unit
    (hembed.trans fun part hpart => hpart ▸ Code.has_line_embed hpiece)
  rw [← hwhole, Code.toList_lineAt w.unit outer (by simp [w.line_ne_nil text]),
    String.toList_ofList, ← List.append_assoc] at houter
  exact ⟨_, fun c hc => (List.mem_append.mp hc).elim hblank hblank, houter⟩

/-- A line of documentation is one comment if the documentation brings no character along that ends a
comment; a carriage return at its end does not come into the file. -/
theorem comment_eq_iff
    (text : String)
    (after : List Char) :
    w.comment (w.line text ++ '\n' :: after) = w.line text ↔
      ∀ c ∈ Text.dropReturn text.toList, c ∉ w.ends := by
  have hplain : w.comment (w.line text ++ '\n' :: after) = w.line text ↔
      ∀ c ∈ w.line text, c ∉ w.ends := by
    constructor
    · intro h c hc
      rw [← h] at hc
      simpa using List.mem_takeWhile_imp hc
    · intro h
      rw [comment, List.takeWhile_append_of_pos fun c hc => by simpa using h c hc,
        List.takeWhile_cons_of_neg (by simpa using w.ends_feed), List.append_nil]
  have hmark : ∀ c ∈ w.mark.toList, c ∉ w.ends := fun c hc => w.mark_plain hc
  have hblank : ' ' ∉ w.ends := w.mark_free ' ' (by simp)
  rw [hplain]
  rcases w.line_eq_or text with ⟨rfl, heq⟩ | heq
  · rw [heq]
    exact ⟨fun _ c hc => absurd hc List.not_mem_nil, fun _ => hmark⟩
  · rw [heq, List.forall_mem_append, List.forall_mem_cons]
    exact ⟨fun h => h.2.2, fun h => ⟨hmark, hblank, h⟩⟩

end Writer

section Documented

open Code (Has)

variable {options : ResolveOptions}
variable {files : List SourceFile}
variable {s : Schema}
variable (h : Resolve.ResolvedFrom options files s)
variable (placement : Placement)
variable {id : DeclId}
variable (hid : id ∈ s.ids)

include h hid

theorem CSharp.has_documentation :
    Has (· = Code.doc "///" (s.decl id).doc)
      ((s.nesting (s.rootOf id)).fold (CSharp.declCode s placement)) := by
  refine (linked_of_resolvedFrom h).fold_nesting (fun outer made hlength code hmem hcode => ?_)
    hid fun left => ?_
  · refine CSharp.has_declCode placement (fun type members hbody => ?_) hmem hcode
    rw [childrenOf_of_enum h hbody, List.length_nil] at hlength
    rw [List.eq_nil_of_length_eq_zero hlength] at hmem
    cases hmem
  · rw [Schema.fold_nestingTo_succ, CSharp.declCode]
    exact .here _ _ rfl

theorem Swift.has_documentation :
    Has (· = Code.doc "///" (s.decl id).doc) (Swift.declCode s (s.rootOf id)) := by
  refine Has.append_left ?_ _
  refine (linked_of_resolvedFrom h).fold_nesting (fun outer made hlength code hmem hcode => ?_)
    hid fun left => ?_
  · refine Swift.has_definition (fun type members hbody => ?_) hmem hcode
    rw [childrenOf_of_enum h hbody, List.length_nil] at hlength
    exact List.eq_nil_of_length_eq_zero hlength
  · rw [Schema.fold_nestingTo_succ, Swift.definition]
    exact .here _ _ rfl

theorem JavaScript.has_documentation :
    Has (· = Code.doc "//" (s.decl id).doc)
      ((s.withDescendants (s.rootOf id)).flatMap (JavaScript.declCode s placement)) := by
  refine Has.flatMap (a := id) ?_ ((linked_of_resolvedFrom h).mem_withDescendants_rootOf hid)
  have hdoc : Has (· = Code.doc "//" (s.decl id).doc) (Code.doc "//" (s.decl id).doc) :=
    Has.whole rfl
  exact (hdoc.append_right _).append_left _

/-- The documentation of a declaration is written behind the mark of a comment. -/
theorem has_documentation
    {w : Writer}
    (hw : w ∈ writers) :
    (w.code s placement (s.rootOf id)).Has (· = Code.doc w.mark (s.decl id).doc) := by
  simp only [writers, List.mem_cons, List.not_mem_nil, or_false] at hw
  rcases hw with rfl | rfl | rfl
  · exact CSharp.has_documentation h placement hid
  · exact Swift.has_documentation h hid
  · exact JavaScript.has_documentation h placement hid

end Documented

end Target

/-- Documentation of a source, and what becomes of it in generated files.  It is the text of a comment,
and has no line feed; of the other characters that end a comment in a target it has those that the
comment has, not counting one carriage return at its end.  The documentation of each declaration is
written behind the mark of a comment.  Where documentation is written and the declaration is not
refused, it is a line of a file; and the line is one comment exactly if the documentation has no
character that ends a comment in the language of the file, again not counting one carriage return at
its end. -/
theorem emit_documentation
    {source text : String}
    {p : Token.Placed}
    (hp : p ∈ Token.lex source)
    (htext : p.token.documentation? = some text)
    {options : ResolveOptions}
    {files : List SourceFile}
    {r : Resolved}
    (h : resolve options files = .ok r) :
    (∃ kind ∈ ['/', '!'], ∃ comment, p.text = '/' :: '/' :: kind :: comment ∧
      '\n' ∉ text.toList ∧ ∀ c ∈ ['\r', '\u2028', '\u2029'],
        c ∈ text.toList ↔ c ∈ Text.dropReturn comment) ∧
      ∀ w ∈ Target.writers, ∀ placement,
        (∀ id ∈ r.schema.ids, (w.code r.schema placement (r.schema.rootOf id)).Has
          (· = Code.doc w.mark (r.schema.decl id).doc)) ∧
        ∀ packages, ∀ root ∈ Emit.roots r.schema ⟨placement, packages⟩,
          w.backend.error? r.schema root = none →
          ∀ texts, (w.code r.schema placement root).Has (· = Code.doc w.mark texts) →
            text ∈ texts →
            (∃ file ∈ (emit r.schema Target.all ⟨placement, packages⟩).files,
              file.backend = w.backend.name ∧ file.path = w.backend.path r.schema root ∧
              ∃ indent, (∀ c ∈ indent, c = ' ') ∧
                Text.HasLine (indent ++ w.line text) file.contents.toList) ∧
            ∀ after, w.comment (w.line text ++ '\n' :: after) = w.line text ↔
              ∀ c ∈ Text.dropReturn text.toList, c ∉ w.ends := by
  have hresolved := Resolve.resolvedFrom_of_resolve h
  have hfeed := Token.feed_notMem_documentation hp htext
  refine ⟨?_, fun w hw placement => ⟨fun id hid => Target.has_documentation hresolved placement hid hw,
    fun packages root hroot haccepted texts hcode hmem => ⟨?_, w.comment_eq_iff text⟩⟩⟩
  · obtain ⟨kind, hkind, comment, hpiece, rfl, -⟩ := Token.documentation_of_mem_lex hp htext
    refine ⟨kind, hkind, comment, hpiece, hfeed, fun c hc => Token.mem_docText_iff comment ?_⟩
    rintro rfl
    exact absurd hc (by decide)
  · obtain ⟨file, hfile, hname, hpath, fragments, hfragment, hcontents⟩ :=
      Target.exists_file (Target.backend_mem_all hw) hroot haccepted
    have hline := w.hasLine_assemble hcode hmem hfeed hfragment (w.backend.path r.schema root)
    rw [← hcontents] at hline
    exact ⟨file, hfile, hname, hpath, hline⟩

namespace Sample

/-- A file with a type and a line of documentation. -/
def commented
    (text : String) :
    SourceFile :=
  { file := 0
    identity := ⟨⟨["foo"]⟩, none⟩
    tree :=
      { doc := []
        imports := []
        decls := [⟨[text], [], ⟨"A", default⟩, .type [], default⟩] } }

/-- The schema of the type. -/
def commentedSchema
    (text : String) :
    Schema :=
  ⟨[{ identity := ⟨⟨["foo"]⟩, none⟩
      ns := ⟨["foo"], none⟩
      doc := []
      decls := [⟨⟨0, 0⟩, "A", [text], none, [], .type [], default⟩]
      roots := [0] }]⟩

theorem resolve_commented
    (text : String) :
    resolve options [commented text] = .ok ⟨commentedSchema text, []⟩ := by
  cbv

end Sample

/-- One word of documentation. -/
theorem emit_documentation_word :
    resolve Sample.options [Sample.commented "a"] = .ok ⟨Sample.commentedSchema "a", []⟩ ∧
      (∃ file ∈ (emit (Sample.commentedSchema "a") Target.all Sample.everything).files,
        file.backend = "js" ∧ ∃ indent, (∀ c ∈ indent, c = ' ') ∧
          Text.HasLine (indent ++ ['/', '/', ' ', 'a']) file.contents.toList) ∧
      ∀ after, Target.javascriptWriter.comment (['/', '/', ' ', 'a'] ++ '\n' :: after) =
        ['/', '/', ' ', 'a'] := by
  have hp : (⟨.doc "a", 0, "/// a".toList⟩ : Token.Placed) ∈
      Token.lex "/// a\ntype A \x7b\x7d" :=
    Token.mem_lexFrom_of_scan 0 (by decide)
  have hresolve := Sample.resolve_commented "a"
  have hwriter : Target.javascriptWriter ∈ Target.writers := by
    simp [Target.writers]
  obtain ⟨-, hwriters⟩ := emit_documentation hp rfl hresolve
  obtain ⟨hcode, hfiles⟩ := hwriters _ hwriter .last
  obtain ⟨⟨file, hfile, hname, -, hline⟩, hcomment⟩ :=
    hfiles [] ⟨0, 0⟩ (by decide) (by decide +kernel) ["a"] (hcode ⟨0, 0⟩ (by decide))
      (List.mem_singleton_self _)
  refine ⟨hresolve, ⟨file, hfile, hname, hline⟩, fun after => (hcomment after).mpr ?_⟩
  simp [Text.dropReturn, Target.javascriptWriter]

/-- Documentation with a carriage return in it.  It resolves, the declaration is not refused, and in
the file what follows the carriage return stands behind the comment. -/
theorem exists_code_from_documentation :
    (⟨.doc "a\rb()", 0, "/// a\rb()".toList⟩ : Token.Placed) ∈
        Token.lex "/// a\rb()\ntype A \x7b\x7d" ∧
      ((Tree.parse 0 "/// a\rb()\ntype A \x7b\x7d").1.decls.map (·.doc)) = [["a\rb()"]] ∧
      resolve Sample.options [Sample.commented "a\rb()"] =
        .ok ⟨Sample.commentedSchema "a\rb()", []⟩ ∧
      (∃ file ∈ (emit (Sample.commentedSchema "a\rb()") Target.all Sample.everything).files,
        file.backend = "js" ∧ ∃ indent, (∀ c ∈ indent, c = ' ') ∧
          Text.HasLine (indent ++ "// a\rb()".toList) file.contents.toList) ∧
      ∀ after, Target.javascriptWriter.comment ("// a\rb()".toList ++ '\n' :: after) =
        "// a".toList := by
  have hresolve := Sample.resolve_commented "a\rb()"
  have hwriter : Target.javascriptWriter ∈ Target.writers := by
    simp [Target.writers]
  have hid : ⟨0, 0⟩ ∈ (Sample.commentedSchema "a\rb()").ids := by
    decide
  have hcode := Target.has_documentation (Resolve.resolvedFrom_of_resolve hresolve) .last hid hwriter
  have hroot : ⟨0, 0⟩ ∈ Emit.roots (Sample.commentedSchema "a\rb()") Sample.everything := by
    decide
  obtain ⟨file, hfile, hname, -, fragments, hfragment, hcontents⟩ :=
    Target.exists_file (Target.backend_mem_all hwriter) hroot (by decide +kernel)
  have hline := Target.javascriptWriter.hasLine_assemble hcode (List.mem_singleton_self _)
    (by simp) hfragment
    (Target.javascriptWriter.backend.path (Sample.commentedSchema "a\rb()") ⟨0, 0⟩)
  rw [← hcontents] at hline
  exact ⟨Token.mem_lexFrom_of_scan 0 (by decide), by decide +kernel, hresolve,
    ⟨file, hfile, hname, hline⟩, fun _ => rfl⟩

end Schemata
