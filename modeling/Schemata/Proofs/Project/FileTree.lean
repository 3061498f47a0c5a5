import Schemata.Project.FileTree
import Schemata.Proofs.Lookup
import Schemata.Proofs.Project.Path

/-!
# What a file tree shows, and what changes in it

The files below a directory are listed by the names on the way to them, each once
and in order.

Following the pieces of a path visits one place after another.  Making the
directories on the way changes nothing but visited places at which nothing
stood; writing a file changes its own place as well, and no other one.  It fails
only where something is in the way: a file among the visited places, or a
directory at the place of the file.

**Results.** `mem_filesBelow_iff`, `pairwise_filesBelow`, `puts_of_writeDeep`,
`writeDeep_of_admits`, `keeps_of_writeDeep`.
-/

namespace Schemata
namespace FileTree

/-- The places that are visited from a place on, along the pieces of a path. -/
def along
    (place : Place) :
    List String → List Place
  | [] => [place]
  | piece :: rest => place :: along (move place piece) rest

/-- The place to which a path leads if all directories on the way are there. -/
def placeOf
    (t : FileTree)
    (p : Path) :
    Place :=
  p.pieces.foldl move (t.origin p)

/-- The places on the way to the last piece of a path. -/
def wayTo
    (t : FileTree)
    (p : Path) :
    List Place :=
  along (t.origin p) p.pieces.dropLast

section Along

variable {place : Place}

theorem mem_along_append
    {pieces more : List String}
    {q : Place} :
    q ∈ along place (pieces ++ more) ↔
      q ∈ along place pieces ∨ q ∈ along (pieces.foldl move place) more := by
  induction pieces generalizing place with
  | nil =>
      cases more with
      | nil =>
          simp [along]
      | cons piece more =>
          simp [along]
  | cons piece pieces ih =>
      simp only [List.cons_append, along, List.mem_cons, ih, List.foldl_cons, or_assoc]

theorem foldl_mem_along
    (place : Place)
    (pieces : List String) :
    pieces.foldl move place ∈ along place pieces := by
  induction pieces generalizing place with
  | nil =>
      exact List.mem_singleton_self place
  | cons piece pieces ih =>
      exact List.mem_cons_of_mem place (ih (move place piece))

section Slash

variable {pieces stem : List String}
variable (h : pieces = stem ∨ pieces = stem ++ [""])

include h

/-- An empty piece at the end of a path leads nowhere. -/
theorem foldl_move_of_stem
    (place : Place) :
    pieces.foldl move place = stem.foldl move place := by
  rcases h with rfl | rfl
  · rfl
  · rw [List.foldl_append]
    rfl

theorem mem_along_of_stem
    {q : Place} :
    q ∈ along place pieces ↔ q ∈ along place stem := by
  rcases h with rfl | rfl
  · rfl
  · rw [mem_along_append, or_iff_left_of_imp]
    intro hq
    have heq : q = stem.foldl move place := by
      simpa [along, move] using hq
    exact heq ▸ foldl_mem_along place stem

end Slash

theorem move_of_isName
    {name : String}
    (h : Path.IsName name)
    (place : Place) :
    move place name = place ++ [name] := by
  have hstep := h.step
  unfold Path.component? at hstep
  unfold move
  split at hstep
  · cases hstep
  · cases hstep
  · cases hstep
  · simp_all

theorem foldl_move_of_isName
    {names : List String}
    (h : ∀ name ∈ names, Path.IsName name) :
    names.foldl move place = place ++ names := by
  induction names generalizing place with
  | nil =>
      simp
  | cons name names ih =>
      obtain ⟨hname, hnames⟩ := List.forall_mem_cons.mp h
      rw [List.foldl_cons, move_of_isName hname, ih hnames, List.append_assoc]
      rfl

end Along

section Places

variable {t t' : FileTree}

theorem lookup_filter_ne
    {place q : Place}
    (hne : q ≠ place)
    (entries : List (Place × Node)) :
    (entries.filter (·.1 != place)).lookup q = entries.lookup q := by
  induction entries with
  | nil =>
      rfl
  | cons entry entries ih =>
      obtain ⟨other, node⟩ := entry
      by_cases hother : other = place
      · subst hother
        have hq : (q == other) = false := by simpa using hne
        rw [List.filter_cons_of_neg (by simp), ih, List.lookup_cons, hq]
      · rw [List.filter_cons_of_pos (by simpa using hother), List.lookup_cons, List.lookup_cons, ih]

/-- Something new stands at its place, and nothing else is changed. -/
theorem node?_insert
    {place : Place}
    (hplace : place ≠ [])
    (node : Node)
    (q : Place) :
    (t.insert place node).node? q = if q = place then some node else t.node? q := by
  unfold node? insert erase
  by_cases hq : q = place
  · subst hq
    rw [if_neg (by simpa using hplace), if_pos rfl, List.lookup_cons, beq_self_eq_true]
  · have hne : (q == place) = false := by simpa using hq
    rw [if_neg hq, List.lookup_cons, hne]
    dsimp only
    rw [lookup_filter_ne hq]

/-- What stands below the root is one of the entries. -/
theorem node?_eq_some_iff
    {place : Place}
    (hplace : place ≠ [])
    {node : Node} :
    t.node? place = some node ↔ (place, node) ∈ t.entries := by
  rw [node?, if_neg (by simpa using hplace), lookup_eq_some_iff_mem t.distinct]

theorem ne_nil_of_node?_ne
    {place : Place}
    (h : t.node? place ≠ some .directory) :
    place ≠ [] := by
  rintro rfl
  exact h rfl

theorem origin_congr
    (h : t'.start = t.start)
    (p : Path) :
    t'.origin p = t.origin p := by
  rw [origin, origin, h]

theorem placeOf_congr
    (h : t'.start = t.start)
    (p : Path) :
    t'.placeOf p = t.placeOf p := by
  rw [placeOf, placeOf, origin_congr h]

theorem wayTo_congr
    (h : t'.start = t.start)
    (p : Path) :
    t'.wayTo p = t.wayTo p := by
  rw [wayTo, wayTo, origin_congr h]

/-- A path is followed exactly where there are directories on the way to its last piece. -/
theorem follow_eq_ok_iff
    {place target : Place}
    {pieces : List String}
    (hne : pieces ≠ []) :
    t.follow place pieces = .ok target ↔ target = pieces.foldl move place ∧
      ∀ q ∈ along place pieces.dropLast, t.node? q = some .directory := by
  induction pieces generalizing place with
  | nil =>
      exact absurd rfl hne
  | cons piece rest ih =>
      have hstep : t.follow place (piece :: rest) = .ok target ↔
          t.node? place = some .directory ∧ t.follow (move place piece) rest = .ok target := by
        rw [follow]
        split <;> simp_all
      rw [hstep]
      cases rest with
      | nil =>
          simp [follow, along, eq_comm, and_comm]
      | cons next rest =>
          rw [ih (List.cons_ne_nil next rest), List.foldl_cons,
            List.dropLast_cons_of_ne_nil (List.cons_ne_nil next rest), along,
            List.forall_mem_cons, and_left_comm]
          rfl

theorem locate_eq_ok_iff
    {p : Path}
    {target : Place} :
    t.locate p = .ok target ↔
      p.text ≠ "" ∧ target = t.placeOf p ∧ ∀ q ∈ t.wayTo p, t.node? q = some .directory := by
  have hne : p.pieces ≠ [] := by
    rw [Path.pieces, Text.split_eq]
    simp [List.splitOn]
  by_cases htext : p.text = ""
  · simp [locate, htext]
  · rw [locate, if_neg (by simpa using htext), follow_eq_ok_iff hne, and_iff_right htext]
    rfl

end Places

section Listing

variable {t : FileTree}
variable {p : Path}

theorem locate_of_isDirectory
    (h : t.isDirectory p = true) :
    t.locate p = .ok (t.placeOf p) ∧ t.node? (t.placeOf p) = some .directory := by
  unfold isDirectory at h
  split at h
  · rename_i place hplace
    obtain rfl := (locate_eq_ok_iff.mp hplace).2.1
    exact ⟨hplace, beq_iff_eq.mp h⟩
  · cases h

theorem below?_eq_some_iff
    {place : Place}
    {entry : Place × Node}
    {names : List String} :
    below? place entry = some names ↔
      names ≠ [] ∧ ∃ text, entry = (place ++ names, .file text) := by
  obtain ⟨other, directory | text⟩ := entry
  · simp [below?]
  · rw [below?]
    split
    · rename_i hother
      simp [hother]
    · rename_i hother
      rw [List.isPrefixOf?_eq_some_iff_append_eq]
      constructor
      · rintro rfl
        exact ⟨by simpa using hother, text, rfl⟩
      · rintro ⟨-, text', heq⟩
        exact (Prod.mk.inj heq).1.symm

/-- What is listed below a directory are the files below its place. -/
theorem mem_filesBelow_iff
    (h : t.isDirectory p = true)
    {names : List String} :
    names ∈ t.filesBelow p ↔ ∃ text, t.node? (t.placeOf p ++ names) = some (.file text) := by
  obtain ⟨hlocate, hdirectory⟩ := locate_of_isDirectory h
  rw [filesBelow, hlocate]
  dsimp only
  simp only [List.mem_mergeSort, List.mem_filterMap, below?_eq_some_iff]
  constructor
  · rintro ⟨entry, hentry, hne, text, rfl⟩
    have hplace : t.placeOf p ++ names ≠ [] := List.append_ne_nil_of_right_ne_nil _ hne
    exact ⟨text, (node?_eq_some_iff hplace).mpr hentry⟩
  · rintro ⟨text, hnode⟩
    have hne : names ≠ [] := by
      rintro rfl
      rw [List.append_nil, hdirectory] at hnode
      cases hnode
    have hplace : t.placeOf p ++ names ≠ [] := List.append_ne_nil_of_right_ne_nil _ hne
    exact ⟨_, (node?_eq_some_iff hplace).mp hnode, hne, text, rfl⟩

/-- Files are listed in the order of names, each once. -/
theorem pairwise_filesBelow
    (t : FileTree)
    (p : Path) :
    (t.filesBelow p).Pairwise (· < ·) := by
  unfold filesBelow
  split
  · exact List.Pairwise.nil
  · rename_i place hplace
    have hnodup : (t.entries.filterMap (below? place)).Nodup := by
      refine List.Pairwise.filterMap _ ?_ (List.pairwise_map.mp t.distinct)
      intro entry entry' hne names hnames names' hnames' heq
      obtain ⟨-, text, rfl⟩ := below?_eq_some_iff.mp hnames
      obtain ⟨-, text', rfl⟩ := below?_eq_some_iff.mp hnames'
      exact hne (congrArg (place ++ ·) heq)
    have htrans : ∀ a b c, Path.namesLe a b = true → Path.namesLe b c = true →
        Path.namesLe a c = true := by
      simp only [Path.namesLe_iff]
      exact fun a b c => le_trans
    have htotal : ∀ a b, (Path.namesLe a b || Path.namesLe b a) = true := by
      simp only [Bool.or_eq_true, Path.namesLe_iff]
      exact le_total
    have hsorted := List.pairwise_mergeSort htrans htotal (t.entries.filterMap (below? place))
    have hapart := (List.mergeSort_perm _ Path.namesLe).nodup_iff.mpr hnodup
    refine (hsorted.and hapart).imp ?_
    rintro a b ⟨hle, hne⟩
    exact lt_of_le_of_ne ((Path.namesLe_iff a b).mp hle) hne

end Listing

section Changes

variable {t t' : FileTree}

/-- What stands at a place is as it was, or nothing stood there and a directory was made; this
happens at some places only. -/
def Keeps
    (t t' : FileTree)
    (places : List Place)
    (q : Place) : Prop :=
  t'.node? q = t.node? q ∨ t.node? q = none ∧ t'.node? q = some .directory ∧ q ∈ places

theorem Keeps.trans
    {t'' : FileTree}
    {places : List Place}
    {q : Place}
    (h : t.Keeps t' places q)
    (h' : t'.Keeps t'' places q) :
    t.Keeps t'' places q := by
  rcases h' with heq | ⟨hnone, hmade, hq⟩
  · rw [Keeps, heq]
    exact h
  · rcases h with heq | ⟨-, hdirectory, -⟩
    · exact .inr ⟨heq ▸ hnone, hmade, hq⟩
    · rw [hdirectory] at hnone
      cases hnone

theorem Keeps.mono
    {places more : List Place}
    {q : Place}
    (h : t.Keeps t' places q)
    (hsub : places ⊆ more) :
    t.Keeps t' more q :=
  h.imp_right fun ⟨hnone, hmade, hq⟩ => ⟨hnone, hmade, hsub hq⟩

/-- What stands at a place stays there. -/
theorem Keeps.node?_eq
    {places : List Place}
    {q : Place}
    (h : t.Keeps t' places q)
    {node : Node}
    (hnode : t.node? q = some node) :
    t'.node? q = some node := by
  rcases h with heq | ⟨hnone, -⟩
  · exact heq.trans hnode
  · rw [hnone] at hnode
    cases hnode

theorem keeps_insert
    {place : Place}
    (hnone : t.node? place = none)
    (q : Place) :
    t.Keeps (t.insert place .directory) [place] q := by
  have hplace : place ≠ [] := ne_nil_of_node?_ne (by rw [hnone]; exact fun h => (by cases h))
  rw [Keeps, node?_insert hplace]
  split
  · rename_i hq
    exact .inr ⟨hq ▸ hnone, rfl, List.mem_singleton.mpr hq⟩
  · exact .inl rfl

theorem mem_along
    (place : Place)
    (pieces : List String) :
    place ∈ along place pieces := by
  cases pieces with
  | nil =>
      exact List.mem_singleton_self place
  | cons piece rest =>
      exact List.mem_cons_self

/-- Making directories along the pieces of a path changes nothing but places on the way. -/
theorem makeAlong_keeps
    (t : FileTree)
    (place : Place)
    (pieces : List String) :
    (t.makeAlong place pieces).1.start = t.start ∧
      ∀ q, t.Keeps (t.makeAlong place pieces).1 (along place pieces) q := by
  induction pieces generalizing t place with
  | nil =>
      exact ⟨rfl, fun q => .inl rfl⟩
  | cons piece rest ih =>
      have hrest : along (move place piece) rest ⊆ along place (piece :: rest) :=
        List.subset_cons_self _ _
      rw [makeAlong]
      split
      · obtain ⟨hstart, hkeeps⟩ := ih t (move place piece)
        exact ⟨hstart, fun q => (hkeeps q).mono hrest⟩
      · exact ⟨rfl, fun q => .inl rfl⟩
      · rename_i hnone
        have hnext : [move place piece] ⊆ along place (piece :: rest) :=
          List.cons_subset.mpr ⟨hrest (mem_along _ rest), List.nil_subset _⟩
        obtain ⟨hstart, hkeeps⟩ := ih (t.insert (move place piece) .directory) (move place piece)
        exact ⟨hstart, fun q => ((keeps_insert hnone q).mono hnext).trans ((hkeeps q).mono hrest)⟩

/-- From a directory on, directories are made along the pieces of a path if no file is in the
way. -/
theorem makeAlong_of_directory
    {place : Place}
    {pieces : List String}
    (hplace : t.node? place = some .directory)
    (hway : ∀ q ∈ along place pieces, ∀ text, t.node? q ≠ some (.file text)) :
    (t.makeAlong place pieces).2 = .ok () ∧
      ∀ q ∈ along place pieces, (t.makeAlong place pieces).1.node? q = some .directory := by
  induction pieces generalizing t place with
  | nil =>
      exact ⟨rfl, fun q hq => List.mem_singleton.mp hq ▸ hplace⟩
  | cons piece rest ih =>
      have hkept := ((t.makeAlong_keeps place (piece :: rest)).2 place).node?_eq hplace
      obtain ⟨-, hrest⟩ := List.forall_mem_cons.mp hway
      rw [along, List.forall_mem_cons, and_left_comm]
      refine ⟨hkept, ?_⟩
      rw [makeAlong]
      split
      · rename_i hdirectory
        exact ih hdirectory hrest
      · rename_i text hfile
        exact absurd hfile (hrest _ (mem_along _ rest) text)
      · rename_i hnone
        have hnil := ne_nil_of_node?_ne (t := t) (by rw [hnone]; exact fun h => (by cases h))
        refine ih (by rw [node?_insert hnil, if_pos rfl]) fun q hq text => ?_
        rw [node?_insert hnil]
        split
        · exact fun h => (by cases h)
        · exact hrest q hq text

/-- A file stands at a place where no directory was, there are directories on the way to it, and
nothing else is changed, except that directories were made on the way. -/
structure Puts
    (t t' : FileTree)
    (place : Place)
    (way : List Place)
    (text : String) : Prop where
  start : t'.start = t.start
  free : t.node? place ≠ some .directory
  file : t'.node? place = some (.file text)
  directory : ∀ q ∈ way, t'.node? q = some .directory
  keeps : ∀ q, q ≠ place → t.Keeps t' way q

/-- A file can be written with the directories on the way to it: paths start in a directory, no file
stands on the way, and the place is no directory and not on the way itself. -/
structure Admits
    (t : FileTree)
    (p : Path) : Prop where
  start : t.node? (t.origin p) = some .directory
  way : ∀ q ∈ t.wayTo p, ∀ text, t.node? q ≠ some (.file text)
  free : t.node? (t.placeOf p) ≠ some .directory
  off : t.placeOf p ∉ t.wayTo p

theorem write_eq_ok
    {p : Path}
    {text : String}
    (h : t.write p text = .ok t') :
    t.Puts t' (t.placeOf p) (t.wayTo p) text := by
  unfold write at h
  split at h
  · cases h
  · rename_i place hplace
    obtain ⟨-, rfl, hway⟩ := locate_eq_ok_iff.mp hplace
    split at h
    · cases h
    · rename_i hnode
      cases h
      have hnil := ne_nil_of_node?_ne hnode
      have hkeeps : ∀ q, q ≠ t.placeOf p →
          (t.insert (t.placeOf p) (.file text)).node? q = t.node? q :=
        fun q hq => (node?_insert hnil _ q).trans (if_neg hq)
      refine ⟨rfl, hnode, ?_, fun q hq => ?_, fun q hq => .inl (hkeeps q hq)⟩
      · rw [node?_insert hnil, if_pos rfl]
      · have hdirectory := hway q hq
        rw [hkeeps q fun heq => hnode (heq ▸ hdirectory), hdirectory]

section WriteDeep

variable {p : Path}
variable {stem : List String}
variable {name last : String}
variable (hname : Path.IsName name)
variable (hlast : Path.IsName last)
variable (hpieces : p.pieces = stem ++ [name, last])

include hname hlast hpieces

section Step

attribute [local irreducible] makeDirectories

-- What making directories does need not be looked at to see what is done after it.
/-- Directories are made up to the last piece, and then the file is written. -/
theorem writeDeep_eq
    (t : FileTree)
    (text : String) :
    t.writeDeep p text =
      match t.makeAlong (t.origin p) p.pieces.dropLast with
      | (made, .error e) => (made, .error e)
      | (made, .ok ()) =>
          match made.write p text with
          | .ok written => (written, .ok ())
          | .error e => (made, .error e) := by
  obtain ⟨parent, hparent, hparentPieces, habsolute⟩ := p.exists_parent? hname hlast hpieces
  have hmake : t.makeDirectories (p.parent?.getD ⟨""⟩) =
      t.makeAlong (t.origin p) p.pieces.dropLast := by
    rw [hparent, Option.getD_some, makeDirectories, origin, habsolute, hparentPieces, hpieces,
      show stem ++ [name, last] = (stem ++ [name]) ++ [last] by simp, List.dropLast_concat]
    rfl
  rw [← hmake]
  rfl

end Step

/-- A file that is written with the directories on the way to it. -/
theorem puts_of_writeDeep
    {text : String}
    (h : t.writeDeep p text = (t', .ok ())) :
    t.Puts t' (t.placeOf p) (t.wayTo p) text := by
  rw [writeDeep_eq hname hlast hpieces] at h
  obtain ⟨hstart, hkeeps⟩ := t.makeAlong_keeps (t.origin p) p.pieces.dropLast
  split at h
  · cases h
  · rename_i made hmade
    rw [hmade] at hstart hkeeps
    split at h
    · rename_i written hwritten
      cases h
      have hputs := write_eq_ok hwritten
      rw [placeOf_congr hstart, wayTo_congr hstart] at hputs
      have hfree : t.node? (t.placeOf p) ≠ some .directory :=
        fun hdirectory => hputs.free ((hkeeps _).node?_eq hdirectory)
      exact ⟨hputs.start.trans hstart, hfree, hputs.file, hputs.directory,
        fun q hq => (hkeeps q).trans (hputs.keeps q hq)⟩
    · cases h

/-- Where a file cannot be written, nothing is changed, except that directories were made on the
way. -/
theorem keeps_of_writeDeep
    {text : String}
    {e : FileError}
    (h : t.writeDeep p text = (t', .error e)) :
    ∀ q, t.Keeps t' (t.wayTo p) q := by
  rw [writeDeep_eq hname hlast hpieces] at h
  obtain ⟨-, hkeeps⟩ := t.makeAlong_keeps (t.origin p) p.pieces.dropLast
  split at h
  · rename_i made e' hmade
    cases h
    rwa [hmade] at hkeeps
  · rename_i made hmade
    split at h
    · cases h
    · cases h
      rwa [hmade] at hkeeps

/-- Where nothing is in the way of a file, it is written. -/
theorem writeDeep_of_admits
    (h : t.Admits p)
    (text : String) :
    (t.writeDeep p text).2 = .ok () := by
  have htext : p.text ≠ "" := by
    intro hempty
    have hlength := congrArg List.length hpieces
    rw [Path.pieces, hempty, Text.split_of_not_mem List.not_mem_nil] at hlength
    simp at hlength
  obtain ⟨hstart, hkeeps⟩ := t.makeAlong_keeps (t.origin p) p.pieces.dropLast
  obtain ⟨hok, hdirectory⟩ := makeAlong_of_directory h.start h.way
  rw [writeDeep_eq hname hlast hpieces]
  generalize t.makeAlong (t.origin p) p.pieces.dropLast = outcome at *
  obtain ⟨made, result⟩ := outcome
  obtain rfl : result = .ok () := hok
  have hlocate : made.locate p = .ok (t.placeOf p) := by
    refine locate_eq_ok_iff.mpr ⟨htext, (placeOf_congr hstart p).symm, ?_⟩
    rw [wayTo_congr hstart]
    exact hdirectory
  have hfree : made.node? (t.placeOf p) ≠ some .directory := by
    rcases hkeeps (t.placeOf p) with heq | ⟨-, -, hmem⟩
    · exact heq ▸ h.free
    · exact absurd hmem h.off
  dsimp only
  rw [write, hlocate]
  dsimp only
  rw [if_neg hfree]

end WriteDeep

end Changes

end FileTree
end Schemata
