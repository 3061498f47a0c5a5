import Schemata.Resolve.Table
import Schemata.Proofs.Resolve.Checked

/-!
# Registered declarations form a forest

Registration numbers a declaration before those inside it and lists, for each
declaration, the indices of those directly inside.  This module says what the
finished table looks like.

Each call of `register` fills one stretch of the table.  `Table.Stretch` is
what such a stretch promises of the whole table, and `register_stretch` follows
the recursion once; everything about a table is read off from the stretch that
covers all of it.

**Results.**
* `forest_of_register`: parents and children agree, a parent comes before its
  children, and siblings have distinct names.
* `mirrors_of_register`: without errors, the table holds every declaration of
  the file, in order.
-/

namespace Schemata

section Registration

variable {next : Nat}
variable {parent : Option Nat}
variable {seen : Seen}
variable {d : Tree.Decl}
variable {rest : List Tree.Decl}

/-- A declaration with a name that was seen is left out. -/
theorem register_cons_seen
    {previous : Span}
    (hseen : seen.place? d.name.value = some previous) :
    (register next parent seen (d :: rest)).value = (register next parent seen rest).value := by
  rw [register]
  simp [hseen]

theorem errors_register_cons_seen
    {previous : Span}
    (hseen : seen.place? d.name.value = some previous) :
    (register next parent seen (d :: rest)).errors ≠ [] := by
  rw [register]
  simp [hseen]

/-- The indices inside a declaration with a new name. -/
def innerOf
    (next : Nat)
    (d : Tree.Decl) :
    Checked (List Nat × List Entry) :=
  register (next + 1) (some next) [] d.body.nested

/-- What comes after a declaration with a new name. -/
def outerOf
    (next : Nat)
    (parent : Option Nat)
    (seen : Seen)
    (d : Tree.Decl)
    (rest : List Tree.Decl) :
    Checked (List Nat × List Entry) :=
  register (next + 1 + (innerOf next d).value.2.length) parent
    (seen ++ [(d.name.value, d.name.span)]) rest

/-- A declaration with a new name comes before those inside it, and these before its siblings. -/
theorem register_cons_new
    (hnew : seen.place? d.name.value = none) :
    (register next parent seen (d :: rest)).value =
      (next :: (outerOf next parent seen d rest).value.1,
        ⟨parent, (innerOf next d).value.1, d⟩ :: (innerOf next d).value.2 ++
          (outerOf next parent seen d rest).value.2) := by
  rw [register]
  simp [hnew, innerOf, outerOf]

theorem errors_register_cons_new
    (hnew : seen.place? d.name.value = none) :
    (register next parent seen (d :: rest)).errors =
      (innerOf next d).errors ++ (outerOf next parent seen d rest).errors := by
  rw [register]
  simp [hnew, innerOf, outerOf]

end Registration

namespace Table

/-- The table holds the entries from an index on. -/
def HoldsFrom
    (t : Table)
    (start : Nat)
    (entries : List Entry) : Prop :=
  ∀ k e, entries[k]? = some e → t.entry? (start + k) = some e

theorem holdsFrom_cons
    {t : Table}
    {start : Nat}
    {e : Entry}
    {entries : List Entry} :
    t.HoldsFrom start (e :: entries) ↔
      t.entry? start = some e ∧ t.HoldsFrom (start + 1) entries := by
  constructor
  · intro h
    refine ⟨h 0 e rfl, ?_⟩
    intro k e' hk
    have hnext := h (k + 1) e' (by simpa using hk)
    rwa [show start + 1 + k = start + (k + 1) by omega]
  · rintro ⟨hhead, htail⟩ k e' hk
    cases k with
    | zero =>
        simp only [List.getElem?_cons_zero, Option.some.injEq] at hk
        subst hk
        exact hhead
    | succ k =>
        rw [show start + (k + 1) = start + 1 + k by omega]
        exact htail k e' (by simpa using hk)

theorem holdsFrom_append
    {t : Table}
    {start : Nat}
    {first second : List Entry} :
    t.HoldsFrom start (first ++ second) ↔
      t.HoldsFrom start first ∧ t.HoldsFrom (start + first.length) second := by
  induction first generalizing start with
  | nil =>
      simp [HoldsFrom]
  | cons e first ih =>
      rw [List.cons_append, holdsFrom_cons, holdsFrom_cons, ih, and_assoc]
      rw [show start + 1 + first.length = start + (e :: first).length by simp; omega]

/-- What an entry says of those inside it: they come later, name it as their parent, hold
declarations inside its own, and have distinct names. -/
structure Node
    (t : Table)
    (index : Nat)
    (e : Entry) : Prop where
  children : ∀ c ∈ e.children, index < c ∧
    ∃ inner, t.entry? c = some inner ∧ inner.parent = some index ∧
      inner.decl ∈ e.decl.body.nested
  names : (e.children.map t.nameAt).Nodup

/-- The entry is listed where it says: among `listed`, or inside its parent. -/
def Placed
    (t : Table)
    (parent : Option Nat)
    (listed : List Nat)
    (index : Nat)
    (e : Entry) : Prop :=
  (e.parent = parent ∧ index ∈ listed) ∨
    ∃ p outer, e.parent = some p ∧ p < index ∧
      t.entry? p = some outer ∧ index ∈ outer.children

/-- What the entries from `start` up to `stop` say, where `listed` are the indices of the outermost
ones, which hold declarations of `decls` with names not in `seen`. -/
structure Stretch
    (t : Table)
    (parent : Option Nat)
    (seen : Seen)
    (decls : List Tree.Decl)
    (start stop : Nat)
    (listed : List Nat) : Prop where
  outermost : ∀ i ∈ listed, start ≤ i ∧
    ∃ e, t.entry? i = some e ∧ e.parent = parent ∧ e.decl ∈ decls
  names : Fresh seen (listed.map t.nameAt)
  node : ∀ i e, start ≤ i → i < stop → t.entry? i = some e → t.Node i e
  placed : ∀ i e, start ≤ i → i < stop → t.entry? i = some e → t.Placed parent listed i e

theorem nameAt_of_entry
    {t : Table}
    {index : Nat}
    {e : Entry}
    (h : t.entry? index = some e) :
    t.nameAt index = e.name := by
  simp [nameAt, h]

/-- A stretch with nothing in it. -/
theorem Stretch.empty
    (t : Table)
    (parent : Option Nat)
    (seen : Seen)
    (start : Nat) :
    t.Stretch parent seen [] start start [] where
  outermost := by simp
  names := fresh_nil seen
  node := by
    intro i e hstart hstop
    omega
  placed := by
    intro i e hstart hstop
    omega

/-- A stretch that leaves the first declaration out. -/
theorem Stretch.skip
    {t : Table}
    {parent : Option Nat}
    {seen : Seen}
    {d : Tree.Decl}
    {decls : List Tree.Decl}
    {start stop : Nat}
    {listed : List Nat}
    (h : t.Stretch parent seen decls start stop listed) :
    t.Stretch parent seen (d :: decls) start stop listed where
  outermost := by
    intro i hi
    obtain ⟨hstart, e, he, hparent, hmem⟩ := h.outermost i hi
    exact ⟨hstart, e, he, hparent, List.mem_cons_of_mem d hmem⟩
  names := h.names
  node := h.node
  placed := h.placed

/-- An entry, the stretch inside it and the stretch after it. -/
theorem Stretch.enter
    {t : Table}
    {parent : Option Nat}
    {seen : Seen}
    {d : Tree.Decl}
    {decls : List Tree.Decl}
    {start middle stop : Nat}
    {children siblings : List Nat}
    (hentry : t.entry? start = some ⟨parent, children, d⟩)
    (hnew : seen.lookup d.name.value = none)
    (hinner : t.Stretch (some start) [] d.body.nested (start + 1) middle children)
    (houter : t.Stretch parent (seen ++ [(d.name.value, d.name.span)]) decls middle stop siblings)
    (hmiddle : start < middle) :
    t.Stretch parent seen (d :: decls) start stop (start :: siblings) where
  outermost := by
    intro i hi
    rcases List.mem_cons.mp hi with rfl | hi
    · exact ⟨le_refl i, _, hentry, rfl, List.mem_cons_self⟩
    · obtain ⟨hstart, e, he, hparent, hmem⟩ := houter.outermost i hi
      exact ⟨by omega, e, he, hparent, List.mem_cons_of_mem d hmem⟩
  names := by
    rw [List.map_cons, nameAt_of_entry hentry]
    exact Fresh.of_append hnew houter.names
  node := by
    intro i e hstart hstop he
    rcases Nat.lt_or_ge i middle with hi | hi
    · rcases Nat.eq_or_lt_of_le hstart with rfl | hlt
      · obtain rfl : e = ⟨parent, children, d⟩ := by
          simpa [hentry] using he.symm
        refine ⟨?_, hinner.names.nodup⟩
        intro c hc
        obtain ⟨hle, inner, hin, hparent, hmem⟩ := hinner.outermost c hc
        exact ⟨by omega, inner, hin, hparent, hmem⟩
      · exact hinner.node i e hlt hi he
    · exact houter.node i e hi hstop he
  placed := by
    intro i e hstart hstop he
    rcases Nat.lt_or_ge i middle with hi | hi
    · rcases Nat.eq_or_lt_of_le hstart with rfl | hlt
      · obtain rfl : e = ⟨parent, children, d⟩ := by
          simpa [hentry] using he.symm
        exact Or.inl ⟨rfl, List.mem_cons_self⟩
      · rcases hinner.placed i e hlt hi he with ⟨hparent, hmem⟩ | hplaced
        · exact Or.inr ⟨start, _, hparent, hlt, hentry, hmem⟩
        · exact Or.inr hplaced
    · rcases houter.placed i e hi hstop he with ⟨hparent, hmem⟩ | hplaced
      · exact Or.inl ⟨hparent, List.mem_cons_of_mem start hmem⟩
      · exact Or.inr hplaced

/-- Every call of `register` fills a stretch of the table that its entries end up in. -/
theorem register_stretch
    (t : Table)
    (next : Nat)
    (parent : Option Nat)
    (seen : Seen)
    (decls : List Tree.Decl)
    (hholds : t.HoldsFrom next (register next parent seen decls).value.2) :
    t.Stretch parent seen decls next
      (next + (register next parent seen decls).value.2.length)
      (register next parent seen decls).value.1 := by
  induction next, parent, seen, decls using register.induct with
  | case1 next parent seen =>
      rw [register]
      exact Stretch.empty t parent seen next
  | case2 next parent seen d rest previous hseen ih =>
      rw [register_cons_seen hseen] at hholds ⊢
      exact (ih hholds).skip
  | case3 next parent seen d rest hnew ihInner ihOuter =>
      rw [register_cons_new hnew] at hholds ⊢
      obtain ⟨hhead, houter⟩ := holdsFrom_append.mp hholds
      obtain ⟨hentry, hinner⟩ := holdsFrom_cons.mp hhead
      rw [List.length_cons, Nat.add_comm _ 1, ← Nat.add_assoc] at houter
      have hrest := ihOuter (innerOf next d).value.2 houter
      have hstop :
          next + 1 + (innerOf next d).value.2.length +
              (outerOf next parent seen d rest).value.2.length =
            next + ((⟨parent, (innerOf next d).value.1, d⟩ : Entry) ::
              (innerOf next d).value.2 ++ (outerOf next parent seen d rest).value.2).length := by
        simp only [List.cons_append, List.length_cons, List.length_append]
        omega
      rw [← hstop]
      exact Stretch.enter hentry hnew (ihInner hinner) hrest (by omega)

/-- The entries of a table form a forest whose outermost entries are the roots. -/
structure Forest
    (t : Table) : Prop where
  roots : ∀ i ∈ t.roots, ∃ e, t.entry? i = some e ∧ e.parent = none
  rootNames : (t.roots.map t.nameAt).Nodup
  node : ∀ i e, t.entry? i = some e → t.Node i e
  placed : ∀ i e, t.entry? i = some e → t.Placed none t.roots i e

/-- A table whose entries are those of one registration. -/
def OfDecls
    (t : Table)
    (decls : List Tree.Decl) : Prop :=
  t.roots = (register 0 none [] decls).value.1 ∧
    t.entries = (register 0 none [] decls).value.2

theorem OfDecls.holdsFrom
    {t : Table}
    {decls : List Tree.Decl}
    (h : t.OfDecls decls) :
    t.HoldsFrom 0 (register 0 none [] decls).value.2 := by
  intro k e hk
  rw [← h.2] at hk
  rw [Nat.zero_add]
  exact hk

theorem forest_of_register
    {t : Table}
    {decls : List Tree.Decl}
    (h : t.OfDecls decls) :
    t.Forest := by
  have hstretch := register_stretch t 0 none [] decls h.holdsFrom
  rw [← h.1, ← h.2, Nat.zero_add] at hstretch
  refine ⟨?_, hstretch.names.nodup, ?_, ?_⟩
  · intro i hi
    obtain ⟨-, e, he, hparent, -⟩ := hstretch.outermost i hi
    exact ⟨e, he, hparent⟩
  · intro i e he
    exact hstretch.node i e (Nat.zero_le i) (List.getElem?_eq_some_iff.mp he).1 he
  · intro i e he
    exact hstretch.placed i e (Nat.zero_le i) (List.getElem?_eq_some_iff.mp he).1 he

/-- The declarations at indices, where there are entries. -/
def declsAt
    (t : Table)
    (indices : List Nat) :
    List (Option Tree.Decl) :=
  indices.map fun i => (t.entry? i).map Entry.decl

/-- Without errors, a stretch holds exactly the declarations that were registered, and each of its
entries exactly the declarations inside its own. -/
theorem register_mirrors
    (t : Table)
    (next : Nat)
    (parent : Option Nat)
    (seen : Seen)
    (decls : List Tree.Decl)
    (hholds : t.HoldsFrom next (register next parent seen decls).value.2)
    (hclean : (register next parent seen decls).errors = []) :
    t.declsAt (register next parent seen decls).value.1 = decls.map some ∧
      ∀ i e, next ≤ i → i < next + (register next parent seen decls).value.2.length →
        t.entry? i = some e → t.declsAt e.children = e.decl.body.nested.map some := by
  induction next, parent, seen, decls using register.induct with
  | case1 next parent seen =>
      rw [register]
      refine ⟨rfl, ?_⟩
      intro i e hstart hstop
      simp at hstop
      omega
  | case2 next parent seen d rest previous hseen ih =>
      exact absurd hclean (errors_register_cons_seen hseen)
  | case3 next parent seen d rest hnew ihInner ihOuter =>
      rw [errors_register_cons_new hnew, List.append_eq_nil_iff] at hclean
      rw [register_cons_new hnew] at hholds ⊢
      obtain ⟨hhead, houter⟩ := holdsFrom_append.mp hholds
      obtain ⟨hentry, hinner⟩ := holdsFrom_cons.mp hhead
      rw [List.length_cons, Nat.add_comm _ 1, ← Nat.add_assoc] at houter
      obtain ⟨hchildren, hdeep⟩ := ihInner hinner hclean.1
      obtain ⟨hsiblings, hlater⟩ := ihOuter (innerOf next d).value.2 houter hclean.2
      refine ⟨?_, ?_⟩
      · unfold declsAt at hsiblings ⊢
        simp only [List.map_cons, hentry, Option.map_some]
        exact congrArg _ hsiblings
      · intro i e hstart hstop he
        simp only [List.cons_append, List.length_cons, List.length_append] at hstop
        by_cases hfirst : i = next
        · subst hfirst
          obtain rfl : e = ⟨parent, (innerOf i d).value.1, d⟩ := by
            simpa [hentry] using he.symm
          exact hchildren
        · by_cases hin : i < next + 1 + (innerOf next d).value.2.length
          · exact hdeep i e (by omega) hin he
          · refine hlater i e (by omega) ?_ he
            unfold outerOf at hstop
            omega

/-- A table that holds every declaration of a file: the roots are the declarations of the file, and
the children of an entry those inside its declaration. -/
structure Mirrors
    (t : Table)
    (decls : List Tree.Decl) : Prop where
  roots : t.declsAt t.roots = decls.map some
  children : ∀ i e, t.entry? i = some e → t.declsAt e.children = e.decl.body.nested.map some

theorem mirrors_of_register
    {t : Table}
    {decls : List Tree.Decl}
    (h : t.OfDecls decls)
    (hclean : (register 0 none [] decls).errors = []) :
    t.Mirrors decls := by
  obtain ⟨hroots, hchildren⟩ := register_mirrors t 0 none [] decls h.holdsFrom hclean
  refine ⟨?_, ?_⟩
  · rw [h.1]
    exact hroots
  · intro i e he
    refine hchildren i e (Nat.zero_le i) ?_ he
    rw [← h.2, Nat.zero_add]
    exact (List.getElem?_eq_some_iff.mp he).1

end Table

end Schemata
