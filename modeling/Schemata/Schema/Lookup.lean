import Schemata.Schema.Basic

/-!
# Schemas: places and paths

Declarations of a package form a forest, given by the parent of each.  A
declaration is addressed by the names on the way from its root.  `parents`
follows parents at most as often as there are declarations, which is enough
where a parent comes before its children.

`typeContains` asks whether a type contains one with a property, through its
items, keys and values and through the fields of the declarations that it
mentions.  It goes depth first and into each declaration once, whatever the type
that mentions it; so what is left to do shrinks with the declarations not yet
seen, or else with the parts of the types that wait.
-/

namespace Schemata

/-- An index and the indices that enclose it, innermost first, up to a bound. -/
def enclosing
    (parent : Nat → Option Nat) :
    Nat → Nat → List Nat
  | 0, _ => []
  | steps + 1, index =>
      index ::
        match parent index with
        | some p => enclosing parent steps p
        | none => []

/-- Walk down from siblings along a path of names. -/
def walk
    (name : Nat → String)
    (children : Nat → List Nat) :
    List Nat → List String → Option Nat
  | _, [] => none
  | siblings, [last] => siblings.find? (name · == last)
  | siblings, first :: rest =>
      match siblings.find? (name · == first) with
      | some index => walk name children (children index) rest
      | none => none

namespace Package

/-- The index of a declaration and of those around it, innermost first. -/
def parents
    (p : Package)
    (index : Nat) :
    List Nat :=
  enclosing (fun i => (p.decl i).parent) p.decls.length index

/-- The declaration with a path. -/
def find?
    (p : Package)
    (path : List String) :
    Option Nat :=
  walk (fun i => (p.decl i).name) (fun i => (p.decl i).children) p.roots path

end Package

namespace Schema

/-- The package with an identity. -/
def findPackage?
    (s : Schema)
    (identity : Identity) :
    Option Nat :=
  s.packages.findIdx? (·.identity == identity)

/-- The declaration with a path in a package. -/
def lookup?
    (s : Schema)
    (package : Nat)
    (path : List String) :
    Option DeclId :=
  ((s.package package).find? path).map (⟨package, ·⟩)

/-- The names on the way from the root to a declaration. -/
def declPath
    (s : Schema)
    (id : DeclId) :
    List String :=
  let p := s.package id.package
  ((p.parents id.index).map fun i => (p.decl i).name).reverse

/-- The outermost declaration around a declaration. -/
def rootOf
    (s : Schema)
    (id : DeclId) :
    DeclId :=
  ⟨id.package, ((s.package id.package).parents id.index).getLastD id.index⟩

/-- The full name of a declaration: the identity of its package and its path. -/
def displayName
    (s : Schema)
    (id : DeclId) :
    String :=
  String.intercalate "::" ((s.package id.package).identity.display :: s.declPath id)

/-- The types of all fields of a declaration, those of the cases of an interface included. -/
def fieldTypes
    (s : Schema)
    (id : DeclId) :
    List TypeRef :=
  (s.decl id).allFields.map (·.type)

/-- The declarations that a search has not gone into. -/
def unseen
    (s : Schema)
    (seen : List DeclId) :
    List DeclId :=
  s.ids.filter fun id => !seen.contains id

theorem decl_eq_absent
    {s : Schema}
    {id : DeclId}
    (h : id ∉ s.ids) :
    s.decl id = Decl.absent := by
  simp only [ids, idsOf, List.mem_flatMap, List.mem_map, List.mem_range, not_exists, not_and] at h
  by_cases hpackage : id.package < s.packages.length
  · have hindex : (s.package id.package).decls.length ≤ id.index :=
      Nat.le_of_not_lt fun hlt => h id.package hpackage id.index hlt rfl
    rw [decl, Package.decl, List.getElem?_eq_none hindex]
    rfl
  · rw [decl, package, List.getElem?_eq_none (Nat.le_of_not_lt hpackage)]
    rfl

theorem unseen_cons
    (s : Schema)
    (id : DeclId)
    (seen : List DeclId) :
    s.unseen (id :: seen) = (s.unseen seen).filter (· != id) := by
  rw [unseen, unseen, List.filter_filter]
  refine List.filter_congr fun other _ => ?_
  rw [List.contains_cons, Bool.not_or]
  rfl

/-- A declaration that is seen for the first time leaves fewer unseen. -/
theorem length_unseen_cons_lt
    (s : Schema)
    {id : DeclId}
    {seen : List DeclId}
    (hid : id ∈ s.ids)
    (hnew : id ∉ seen) :
    (s.unseen (id :: seen)).length < (s.unseen seen).length := by
  rw [unseen_cons]
  have hmem : id ∈ s.unseen seen := List.mem_filter.mpr ⟨hid, by simpa using hnew⟩
  exact List.length_filter_lt_length_iff_exists.mpr ⟨id, hmem, by simp⟩

theorem unseen_cons_of_notMem
    (s : Schema)
    {id : DeclId}
    (seen : List DeclId)
    (hid : id ∉ s.ids) :
    s.unseen (id :: seen) = s.unseen seen := by
  rw [unseen_cons]
  refine List.filter_eq_self.mpr fun other hother => ?_
  have hmem := (List.mem_filter.mp hother).1
  simpa using fun heq : other = id => hid (heq ▸ hmem)

/-- To go into a declaration leaves fewer declarations unseen, or no field where there is no such
declaration. -/
theorem lex_unseen
    (s : Schema)
    {id : DeclId}
    {seen : List DeclId}
    (hnew : id ∉ seen)
    (todo : List TypeRef) :
    Prod.Lex (· < ·) (· < ·)
      ((s.unseen (id :: seen)).length, (TypeRef.partsList (s.fieldTypes id ++ todo)).length)
      ((s.unseen seen).length, (TypeRef.partsList (.decl id :: todo)).length) := by
  by_cases hid : id ∈ s.ids
  · exact .left _ _ (s.length_unseen_cons_lt hid hnew)
  · have hnone : s.fieldTypes id = [] := by
      rw [fieldTypes, decl_eq_absent hid]
      rfl
    rw [s.unseen_cons_of_notMem seen hid, hnone]
    exact .right _ (by simp [TypeRef.partsList, TypeRef.parts])

/-- One of the types contains a type with the property, where the search has already gone into the
declarations `seen` and does not go into them again. -/
def containsFrom
    (s : Schema)
    (property : TypeRef → Bool)
    (seen : List DeclId) :
    List TypeRef → Bool
  | [] => false
  | type :: todo =>
      if property type then true
      else
        match type with
        | .primitive _ => containsFrom s property seen todo
        | .array item => containsFrom s property seen (item :: todo)
        | .map key value => containsFrom s property seen (key :: value :: todo)
        | .tuple items => containsFrom s property seen (items ++ todo)
        | .decl id =>
            if id ∈ seen then containsFrom s property seen todo
            else containsFrom s property (id :: seen) (s.fieldTypes id ++ todo)
termination_by todo => ((s.unseen seen).length, (TypeRef.partsList todo).length)
decreasing_by
  -- a part in place of its type leaves fewer parts; only a declaration changes what is unseen
  all_goals try
    exact .right _ (by simp [TypeRef.partsList, TypeRef.parts, TypeRef.length_partsList_append])
  exact s.lex_unseen ‹_› todo

/-- The type contains a type with the property. -/
def typeContains
    (s : Schema)
    (property : TypeRef → Bool)
    (type : TypeRef) :
    Bool :=
  s.containsFrom property [] [type]

end Schema

end Schemata
