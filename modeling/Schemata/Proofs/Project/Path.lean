import Schemata.Path
import Schemata.Proofs.Text.Cut
import Mathlib.Data.List.Lex
import Mathlib.Data.String.Basic

/-!
# Pieces of paths

A path is followed piece by piece.  Names that a path is joined to are further
pieces of it, except that the first of them takes the place of an empty piece at
the end; the parent of a path that ends in names has all pieces but the last.

Names that a path is joined to are also what lies below it, so they are found again
when the path is taken away.  Lists of names are in the order of lists.

**Results.** `exists_pieces_join`, `exists_parent?`, `relativeTo?_join`, `namesLe_iff`.
-/

namespace Schemata
namespace Path

/-- The text is the name of something in a directory. -/
structure IsName
    (name : String) : Prop where
  step : component? name = some (.name name)
  slash : '/' ∉ name.toList

instance (name : String) : Decidable (IsName name) :=
  decidable_of_iff (component? name = some (.name name) ∧ '/' ∉ name.toList)
    ⟨fun h => ⟨h.1, h.2⟩, fun h => ⟨h.step, h.slash⟩⟩

section Texts

theorem slash_not_mem
    {text : String}
    (h : Naming.IsIdentText text) :
    '/' ∉ text.toList :=
  fun hslash => absurd (h '/' hslash) (by decide)

/-- An identifier is a name. -/
theorem isName_of_isIdentText
    {text : String}
    (h : Naming.IsIdentText text)
    (hne : text ≠ "") :
    IsName text := by
  refine ⟨?_, slash_not_mem h⟩
  unfold component?
  split
  · exact absurd rfl hne
  · exact absurd (h '.' (by decide)) (by decide)
  · exact absurd (h '.' (by decide)) (by decide)
  · rfl

/-- The pieces that are no names are the ends of two dots. -/
theorem component?_eq_name_iff
    (text : String) :
    component? text = some (.name text) ↔ ¬ text.toList <:+ ['.', '.'] := by
  unfold component?
  split
  · exact iff_of_false (fun h => (by cases h)) (by decide)
  · exact iff_of_false (fun h => (by cases h)) (by decide)
  · exact iff_of_false (fun h => (by cases h)) (by decide)
  · rename_i hempty hdot hdots
    refine iff_of_true rfl fun hsuffix => ?_
    rcases List.suffix_cons_iff.mp hsuffix with heq | hsuffix
    · exact hdots (String.toList_inj.mp heq)
    · rcases List.suffix_cons_iff.mp hsuffix with heq | hsuffix
      · exact hdot (String.toList_inj.mp heq)
      · exact hempty (String.toList_eq_nil_iff.mp (List.suffix_nil.mp hsuffix))

/-- A name with more in front of it is a name. -/
theorem IsName.append
    {ending : String}
    (h : IsName ending)
    {text : String}
    (hslash : '/' ∉ text.toList) :
    IsName (text ++ ending) := by
  refine ⟨(component?_eq_name_iff _).mpr fun hsuffix => ?_, ?_⟩
  · rw [String.toList_append] at hsuffix
    exact (component?_eq_name_iff _).mp h.step ((List.suffix_append _ _).trans hsuffix)
  · rw [String.toList_append, List.mem_append]
    exact fun hmem => hmem.elim hslash h.slash

end Texts

section Names

variable {name : String}

theorem IsName.ne_empty
    (h : IsName name) :
    name ≠ "" := by
  rintro rfl
  cases h.step

theorem IsName.toList_ne_nil
    (h : IsName name) :
    name.toList ≠ [] := by
  simpa using h.ne_empty

/-- A path that is followed by a slash and a name. -/
theorem pieces_append
    (text : String)
    (h : IsName name) :
    (Path.mk (text ++ "/" ++ name)).pieces = (Path.mk text).pieces ++ [name] := by
  rw [pieces, show "/" = String.singleton '/' from rfl, Text.split_append,
    Text.split_of_not_mem h.slash]
  rfl

theorem isAbsolute_append
    {text more : String}
    (h : text.toList ≠ []) :
    (Path.mk (text ++ more)).isAbsolute = (Path.mk text).isAbsolute := by
  obtain ⟨c, cs, hcons⟩ := List.exists_cons_of_ne_nil h
  simp [isAbsolute, hcons]

theorem IsName.not_isAbsolute
    (h : IsName name)
    (more : String) :
    (Path.mk (name ++ more)).isAbsolute = false := by
  rw [isAbsolute_append h.toList_ne_nil]
  have hslash := h.slash
  obtain ⟨c, cs, hcons⟩ := List.exists_cons_of_ne_nil h.toList_ne_nil
  rw [hcons] at hslash
  simp only [isAbsolute, hcons, List.head?_cons, beq_eq_false_iff_ne]
  rintro heq
  exact hslash (Option.some.inj heq ▸ List.mem_cons_self)

/-- A path that is joined to a name is its own text, perhaps with a slash, and then the name. -/
theorem exists_join_name
    (p : Path)
    (h : IsName name) :
    ∃ lead stem, p.join ⟨name⟩ = ⟨lead ++ name⟩ ∧
      (p.join ⟨name⟩).isAbsolute = p.isAbsolute ∧
        (p.join ⟨name⟩).pieces = stem ++ [name] ∧
          (p.pieces = stem ∨ p.pieces = stem ++ [""]) := by
  obtain ⟨text⟩ := p
  have hrelative : (Path.mk name).isAbsolute = false := by
    simpa using h.not_isAbsolute ""
  rw [join, hrelative, if_neg Bool.false_ne_true]
  by_cases hempty : text = ""
  · subst hempty
    refine ⟨"", [], rfl, ?_, ?_, .inr rfl⟩
    · rw [if_pos (by simp), String.empty_append, hrelative]
      rfl
    · simpa [pieces] using Text.split_of_not_mem h.slash
  · have hne : text.toList ≠ [] := by simpa using hempty
    by_cases hslash : text.toList.getLast? = some '/'
    · obtain ⟨init, hinit⟩ : ∃ init, text.toList = init ++ ['/'] :=
        ⟨_, (List.dropLast_append_getLast? _ hslash).symm⟩
      have htext : text = String.ofList init ++ "/" := by
        rw [← String.toList_inj, hinit]
        simp
      refine ⟨text, (Path.mk (String.ofList init)).pieces, ?_, ?_, ?_, .inr ?_⟩
      · simp [hslash]
      · simpa [hslash] using isAbsolute_append hne
      · rw [if_pos (by simp [hslash]), htext, pieces_append _ h]
      · rw [htext, pieces, ← String.append_empty (s := String.ofList init ++ "/"),
          show "/" = String.singleton '/' from rfl, Text.split_append]
        rfl
    · refine ⟨text ++ "/", (Path.mk text).pieces, ?_, ?_, ?_, .inl rfl⟩
      · simp [hslash, hempty]
      · simpa [hslash, hempty, String.append_assoc] using isAbsolute_append hne
      · rw [if_neg (by simp [hslash, hempty]), pieces_append _ h]

/-- A path that ends in a name is joined to what is not absolute by a slash. -/
theorem join_of_name
    (lead : String)
    (h : IsName name)
    {q : Path}
    (hrelative : q.isAbsolute = false) :
    (Path.mk (lead ++ name)).join q = ⟨lead ++ name ++ "/" ++ q.text⟩ := by
  have hlast : name.toList.getLast? ≠ some '/' :=
    fun hslash => h.slash (List.mem_of_getLast? hslash)
  rw [join, hrelative, if_neg Bool.false_ne_true, if_neg (by simp [h.ne_empty, hlast])]

theorem not_isAbsolute_ofNames
    {names : List String}
    (hnames : ∀ name ∈ names, IsName name)
    (hne : names ≠ []) :
    (ofNames names).isAbsolute = false := by
  obtain ⟨first, rest, rfl⟩ := List.exists_cons_of_ne_nil hne
  obtain ⟨more, hmore⟩ : ∃ more, String.intercalate "/" (first :: rest) = first ++ more := by
    cases rest with
    | nil =>
        exact ⟨"", by simp⟩
    | cons second rest =>
        exact ⟨_, String.intercalate_cons_cons.trans (String.append_assoc ..)⟩
  rw [ofNames, hmore]
  exact (hnames first List.mem_cons_self).not_isAbsolute more

theorem pieces_ofNames
    {names : List String}
    (hnames : ∀ name ∈ names, IsName name)
    (hne : names ≠ []) :
    (ofNames names).pieces = names :=
  Text.split_intercalate hne fun name hname => (hnames name hname).slash

/-- A path that is joined to names has them as further pieces. -/
theorem exists_pieces_join
    (p : Path)
    {names : List String}
    (hname : IsName name)
    (hnames : ∀ name ∈ names, IsName name)
    (hne : names ≠ []) :
    ∃ stem, ((p.join ⟨name⟩).join (ofNames names)).pieces = stem ++ name :: names ∧
      ((p.join ⟨name⟩).join (ofNames names)).isAbsolute = p.isAbsolute ∧
        (p.pieces = stem ∨ p.pieces = stem ++ [""]) := by
  obtain ⟨lead, stem, hjoin, habsolute, hpieces, hstem⟩ := p.exists_join_name hname
  obtain ⟨first, rest, rfl⟩ := List.exists_cons_of_ne_nil hne
  have hrelative := not_isAbsolute_ofNames hnames hne
  rw [hjoin] at habsolute hpieces ⊢
  rw [join_of_name lead hname hrelative]
  have hsplit : Text.split '/' (ofNames (first :: rest)).text = first :: rest :=
    pieces_ofNames hnames hne
  refine ⟨stem, ?_, ?_, hstem⟩
  · rw [pieces, show "/" = String.singleton '/' from rfl, Text.split_append]
    rw [hsplit]
    rw [pieces] at hpieces
    rw [hpieces, List.append_assoc]
    rfl
  · have hne : (lead ++ name).toList ≠ [] := by simp [hname.ne_empty]
    rw [String.append_assoc, isAbsolute_append hne, habsolute]

/-- Nothing is dropped from pieces that end in a name. -/
theorem trimEnd_concat
    (h : IsName name)
    (pieces : List String) :
    trimEnd (pieces ++ [name]) = pieces ++ [name] := by
  rw [trimEnd, List.reverse_concat, List.dropWhile_cons_of_neg (by simp [h.step]),
    List.reverse_cons, List.reverse_reverse]

/-- A path that ends in two names has a parent, which has all pieces but the last. -/
theorem exists_parent?
    (p : Path)
    {stem : List String}
    {last : String}
    (hname : IsName name)
    (hlast : IsName last)
    (hpieces : p.pieces = stem ++ [name, last]) :
    ∃ q, p.parent? = some q ∧ q.pieces = stem ++ [name] ∧ q.isAbsolute = p.isAbsolute := by
  have hparent : p.parent? = some (ofNames (stem ++ [name])) := by
    cases stem with
    | nil =>
        have hfirst : name.isEmpty = false := by simpa using hname.ne_empty
        rw [parent?, hpieces]
        dsimp only [List.nil_append]
        rw [show [last] = [] ++ [last] from rfl, trimEnd_concat hlast]
        simp [ofPieces, hfirst, trimEnd]
    | cons first stem =>
        rw [parent?, hpieces]
        dsimp only [List.cons_append]
        rw [show stem ++ [name, last] = (stem ++ [name]) ++ [last] by simp, trimEnd_concat hlast,
          List.dropLast_concat, trimEnd_concat hname]
        simp [ofPieces]
  have htext : p.text = (ofNames (stem ++ [name])).text ++ "/" ++ last := by
    have hjoined : String.intercalate "/" p.pieces = p.text := Text.intercalate_split p.text
    rw [← hjoined, hpieces, show stem ++ [name, last] = (stem ++ [name]) ++ [last] by simp,
      String.intercalate_append_of_ne_nil (List.concat_ne_nil name stem) (List.cons_ne_nil last []),
      String.intercalate_singleton]
    rfl
  have hparentPieces : (ofNames (stem ++ [name])).pieces = stem ++ [name] := by
    have happend := pieces_append (ofNames (stem ++ [name])).text hlast
    rw [← htext] at happend
    exact List.append_inj_left' (happend.symm.trans (hpieces.trans (by simp))) rfl
  refine ⟨_, hparent, hparentPieces, ?_⟩
  have hne : (ofNames (stem ++ [name])).text.toList ≠ [] := by
    intro hempty
    rw [pieces, String.toList_eq_nil_iff.mp hempty] at hparentPieces
    have hend := congrArg List.getLast? hparentPieces
    rw [List.getLast?_concat] at hend
    exact hname.ne_empty (Option.some.inj hend).symm
  obtain ⟨text⟩ := p
  dsimp only at htext
  rw [htext, String.append_assoc, isAbsolute_append hne]

end Names

section Below

variable {names : List String}

/-- The steps of names are the names. -/
theorem filterMap_component?
    (hnames : ∀ name ∈ names, IsName name) :
    names.filterMap component? = names.map Component.name := by
  rw [← List.filterMap_eq_map]
  exact List.filterMap_congr fun name hname => (hnames name hname).step

theorem IsName.firstComponent?
    {name : String}
    (h : IsName name)
    (rest : List String) :
    firstComponent? name rest = some (.name name) := by
  have hdot : name ≠ "." := by
    rintro rfl
    cases h.step
  rw [Path.firstComponent?, if_neg (by simpa using h.ne_empty), if_neg hdot, h.step]

/-- What the first piece names does not depend on the pieces after it, if there are some. -/
theorem exists_firstComponent?
    {first : String}
    {rest more : List String}
    (hrest : first = "" → rest ≠ [])
    (hmore : more ≠ []) :
    ∃ c, firstComponent? first rest = some c ∧ firstComponent? first more = some c := by
  by_cases hempty : first = ""
  · refine ⟨.root, ?_, ?_⟩
    · simp [firstComponent?, hempty, hrest hempty]
    · simp [firstComponent?, hempty, hmore]
  · by_cases hdot : first = "."
    · exact ⟨.current, by simp [firstComponent?, hdot], by simp [firstComponent?, hdot]⟩
    · have hstep : ∃ c, component? first = some c := by
        unfold component?
        split
        · exact absurd rfl hempty
        · exact absurd rfl hdot
        · exact ⟨_, rfl⟩
        · exact ⟨_, rfl⟩
      obtain ⟨c, hc⟩ := hstep
      exact ⟨c, by simp [firstComponent?, hempty, hdot, hc],
        by simp [firstComponent?, hempty, hdot, hc]⟩

theorem components_ofNames
    (hnames : ∀ name ∈ names, IsName name)
    (hne : names ≠ []) :
    (ofNames names).components = names.map Component.name := by
  rw [components, pieces_ofNames hnames hne]
  obtain ⟨first, rest, rfl⟩ := List.exists_cons_of_ne_nil hne
  dsimp only
  rw [(hnames first List.mem_cons_self).firstComponent?,
    filterMap_component? fun name hname => hnames name (List.mem_cons_of_mem first hname)]
  rfl

/-- Nothing is dropped from the end of names. -/
theorem trimEnd_of_names
    (hnames : ∀ name ∈ names, IsName name) :
    trimEnd names = names := by
  rcases List.eq_nil_or_concat' names with rfl | ⟨init, last, rfl⟩
  · rfl
  · exact trimEnd_concat (hnames last (by simp)) init

/-- After the pieces of some steps stand the pieces that come next. -/
theorem dropWhile_dropSteps_append
    (pieces rest : List String) :
    (dropSteps (pieces.filterMap component?).length (pieces ++ rest)).dropWhile
        (fun piece => (component? piece).isNone) =
      rest.dropWhile fun piece => (component? piece).isNone := by
  induction pieces with
  | nil =>
      rw [List.filterMap_nil, List.length_nil, List.nil_append, dropSteps]
  | cons piece pieces ih =>
      cases hstep : component? piece with
      | some c =>
          rw [List.filterMap_cons_some hstep, List.length_cons, List.cons_append, dropSteps,
            if_pos (by rw [hstep]; rfl), ih]
      | none =>
          rw [List.filterMap_cons_none hstep, List.cons_append]
          generalize (pieces.filterMap component?).length = n at ih ⊢
          cases n with
          | zero =>
              rw [dropSteps] at ih ⊢
              rw [List.dropWhile_cons_of_pos (by rw [hstep]; rfl), ih]
          | succ n =>
              rw [dropSteps, if_neg (by simp [hstep])]
              exact ih

/-- A path that is joined to names is joined to the first and then to the others. -/
theorem join_ofNames_cons
    (p : Path)
    {first : String}
    (hfirst : IsName first)
    (hnames : ∀ name ∈ names, IsName name)
    (hne : names ≠ []) :
    p.join (ofNames (first :: names)) = (p.join ⟨first⟩).join (ofNames names) := by
  have hall : ∀ name ∈ first :: names, IsName name :=
    List.forall_mem_cons.mpr ⟨hfirst, hnames⟩
  have htext : (ofNames (first :: names)).text = first ++ "/" ++ (ofNames names).text :=
    String.intercalate_cons_of_ne_nil hne
  have hsingle : (Path.mk first).isAbsolute = false := by
    simpa using hfirst.not_isAbsolute ""
  have hjoin : ∀ lead, (Path.mk (lead ++ first)).join (ofNames names) =
      ⟨lead ++ first ++ "/" ++ (ofNames names).text⟩ :=
    fun lead => join_of_name lead hfirst (not_isAbsolute_ofNames hnames hne)
  have hmany := not_isAbsolute_ofNames hall (List.cons_ne_nil first names)
  unfold join at hjoin ⊢
  rw [hsingle, hmany, if_neg Bool.false_ne_true, if_neg Bool.false_ne_true]
  split
  · rw [hjoin, htext]
    simp only [String.append_assoc]
  · rw [hjoin, htext]
    simp only [String.append_assoc]

theorem exists_pieces_join_ofNames
    (p : Path)
    (hnames : ∀ name ∈ names, IsName name)
    (hne : names ≠ []) :
    ∃ stem, (p.join (ofNames names)).pieces = stem ++ names ∧
      (p.pieces = stem ∨ p.pieces = stem ++ [""]) := by
  obtain ⟨first, rest, rfl⟩ := List.exists_cons_of_ne_nil hne
  obtain ⟨hfirst, hrest⟩ := List.forall_mem_cons.mp hnames
  by_cases hmore : rest = []
  · subst hmore
    obtain ⟨lead, stem, -, -, hpieces, hstem⟩ := p.exists_join_name hfirst
    exact ⟨stem, hpieces, hstem⟩
  · obtain ⟨stem, hpieces, -, hstem⟩ := p.exists_pieces_join hfirst hrest hmore
    exact ⟨stem, by rw [join_ofNames_cons p hfirst hrest hmore, hpieces], hstem⟩

/-- Below the empty path lies the whole path. -/
theorem relativeTo?_of_components_eq_nil
    {p base : Path}
    {first : String}
    {rest : List String}
    (hbase : base.components = [])
    (hpieces : p.pieces = first :: rest)
    (hfirst : first ≠ "") :
    p.relativeTo? base = some (ofPieces first (trimEnd rest)) := by
  rw [relativeTo?, hbase, hpieces, if_pos List.isPrefixOf_nil_left]
  split
  · rename_i heq
    cases heq
  · rename_i heq
    exact absurd (List.cons.inj heq).1 hfirst
  · rename_i heq _
    cases heq
    rfl
  · rename_i hlength
    cases hlength

/-- What lies below a path that has steps. -/
theorem relativeTo?_of_steps
    {p base : Path}
    {first : String}
    {rest : List String}
    {n : Nat}
    (hsteps : base.components <+: p.components)
    (hlength : base.components.length = n + 1)
    (hpieces : p.pieces = first :: rest)
    (hrest : rest ≠ []) :
    p.relativeTo? base = some (ofNames (trimEnd
      ((dropSteps n rest).dropWhile fun piece => (component? piece).isNone))) := by
  rw [relativeTo?, hpieces, hlength, if_pos (List.isPrefixOf_iff_prefix.mpr hsteps)]
  split
  · rename_i heq
    cases heq
  · rename_i heq
    exact absurd (List.cons.inj heq).2 hrest
  · rename_i hzero
    cases hzero
  · rename_i heq hsucc
    cases heq
    cases hsucc
    rfl

/-- The names that a path is joined to are what lies below that path. -/
theorem relativeTo?_join
    (p : Path)
    (hnames : ∀ name ∈ names, IsName name)
    (hne : names ≠ []) :
    (p.join (ofNames names)).relativeTo? p = some (ofNames names) := by
  obtain ⟨name, more, rfl⟩ := List.exists_cons_of_ne_nil hne
  obtain ⟨hname, hmore⟩ := List.forall_mem_cons.mp hnames
  by_cases htext : p.text = ""
  · have hjoin : p.join (ofNames (name :: more)) = ofNames (name :: more) := by
      rw [join, not_isAbsolute_ofNames hnames hne, if_neg Bool.false_ne_true,
        if_pos (by simp [htext]), htext, String.empty_append]
    have hbase : p.components = [] := by
      rw [components, pieces, htext]
      rfl
    rw [hjoin, relativeTo?_of_components_eq_nil hbase (pieces_ofNames hnames hne) hname.ne_empty,
      trimEnd_of_names hmore, ofPieces, if_neg (by simp [hname.ne_empty])]
  · obtain ⟨stem, hpieces, hstem⟩ := p.exists_pieces_join_ofNames hnames hne
    have htext' : String.intercalate "/" p.pieces ≠ "" :=
      fun hempty => htext ((Text.intercalate_split p.text).symm.trans hempty)
    -- An empty piece at the end of the base is no step, so the pieces before it have all steps.
    obtain ⟨first, rest, rest', rfl, hbase, hsteps⟩ : ∃ first rest rest', stem = first :: rest ∧
        p.pieces = first :: rest' ∧ rest'.filterMap component? = rest.filterMap component? := by
      cases stem with
      | nil =>
          rcases hstem with hstem | hstem
          · exact absurd (by rw [hstem]; rfl) htext'
          · exact absurd (by rw [hstem]; rfl) htext'
      | cons first rest =>
          rcases hstem with hstem | hstem
          · exact ⟨first, rest, rest, rfl, hstem, rfl⟩
          · refine ⟨first, rest, rest ++ [""], rfl, hstem, ?_⟩
            rw [List.filterMap_append]
            exact List.append_nil _
    have hsome : first = "" → rest' ≠ [] := by
      rintro rfl rfl
      exact htext' (by rw [hbase]; rfl)
    rw [List.cons_append] at hpieces
    obtain ⟨c, hc, hc'⟩ := exists_firstComponent? hsome
      (show rest ++ name :: more ≠ [] by simp)
    have hcomponents : p.components = c :: rest.filterMap component? := by
      rw [components, hbase]
      dsimp only
      rw [hc, hsteps]
      rfl
    have hjoined : (p.join (ofNames (name :: more))).components =
        p.components ++ (name :: more).map Component.name := by
      rw [hcomponents, components, hpieces]
      dsimp only
      rw [hc', List.filterMap_append, filterMap_component? hnames]
      rfl
    rw [relativeTo?_of_steps (hjoined ▸ List.prefix_append _ _) (by rw [hcomponents]; rfl)
      hpieces (by simp), dropWhile_dropSteps_append,
      List.dropWhile_cons_of_neg (by simp [hname.step]), trimEnd_of_names hnames]

/-- The name at the end of names. -/
theorem fileName?_ofNames
    (hnames : ∀ name ∈ names, IsName name)
    {last : String}
    (hlast : names.getLast? = some last) :
    (ofNames names).fileName? = some last := by
  have hne : names ≠ [] := by
    rintro rfl
    cases hlast
  rw [fileName?, components_ofNames hnames hne, List.getLast?_map, hlast]
  rfl

end Below

/-- A name with an extension is cut where the extension begins. -/
theorem cutExtension_append
    {stem extension : String}
    (hstem : stem ≠ "")
    (hextension : '.' ∉ extension.toList) :
    cutExtension (stem ++ "." ++ extension) = (stem, some extension) := by
  have hlist : (stem ++ "." ++ extension).toList.reverse =
      extension.toList.reverse ++ ['.'] ++ stem.toList.reverse := by
    simp
  have hcut : Text.cutAt? ['.'] (extension.toList.reverse ++ ['.'] ++ stem.toList.reverse) =
      some (extension.toList.reverse, stem.toList.reverse) :=
    Text.cutAt?_append (mt List.mem_reverse.mp hextension) _
  obtain ⟨c, cs, hcs⟩ := List.exists_cons_of_ne_nil
    (show stem.toList.reverse ≠ [] by simpa using hstem)
  rw [cutExtension, hlist, hcut, hcs]
  dsimp only
  rw [← hcs, List.reverse_reverse, List.reverse_reverse, String.ofList_toList,
    String.ofList_toList]

/-- The extension of a file is what stands behind its last dot, if something stands before it. -/
theorem cutExtension_eq_some_iff
    {name extension : String}
    (hextension : '.' ∉ extension.toList) :
    (cutExtension name).2 = some extension ↔
      ∃ stem, stem ≠ "" ∧ name = stem ++ "." ++ extension := by
  constructor
  · intro h
    unfold cutExtension at h
    split at h
    · cases h
    · cases h
    · rename_i after before hbefore hcut
      have hlist := Text.eq_append_of_cutAt? hcut
      refine ⟨String.ofList before.reverse, by simpa using hbefore, ?_⟩
      rw [← Option.some.inj h, ← String.toList_inj, ← List.reverse_inj, hlist]
      simp
  · rintro ⟨stem, hstem, rfl⟩
    rw [cutExtension_append hstem hextension]

/-- Names are compared one by one. -/
theorem namesLe_iff
    (as bs : List String) :
    namesLe as bs = true ↔ as ≤ bs := by
  rw [← not_lt]
  induction as generalizing bs with
  | nil =>
      simp [namesLe]
  | cons a as ih =>
      cases bs with
      | nil =>
          simp [namesLe]
      | cons b bs =>
          simp only [namesLe, List.cons_lt_cons_iff, Bool.or_eq_true, Bool.and_eq_true,
            decide_eq_true_eq, beq_iff_eq, ih]
          rcases lt_trichotomy a b with hlt | rfl | hgt
          · simp [hlt, hlt.asymm, hlt.ne']
          · simp
          · simp [hgt, hgt.asymm, hgt.ne']

end Path
end Schemata
