import Schemata.Proofs.Resolve.Occurrence
import Schemata.Proofs.Tree.Place

/-!
# The places of a tree

Each node of a tree has its place in the source, and the places of its parts lie
in it, one after another.  This follows the grammar: lexemes lie in a row, the
parts of a phrase are phrases over parts of its lexemes, and a node that stands
for a phrase has the place from the first lexeme to the last.

**Results.** `lays_declWithin`, `parse_wellPlaced`.
-/

namespace Schemata

section WellPlaced

variable (file : Nat)
variable (source : String)

/-- The parts lie in the place of their node, one after another. -/
structure Span.Frames
    (span : Span)
    (parts : List Span) : Prop where
  lies : span.LiesIn file source
  parts_lie : ∀ part ∈ parts, part.LiesIn file source
  within : ∀ part ∈ parts, span.start ≤ part.start ∧ part.stop ≤ span.stop
  apart : parts.Pairwise fun p q => p.stop ≤ q.start

/-- The place of a part that may be absent. -/
def Located.places
    {α : Type}
    (part : Option (Located α)) :
    List Span :=
  part.toList.map (·.span)

/-- The names in a written type lie in its place. -/
def TypeExpr.WellPlaced
    (type : Located TypeExpr) : Prop :=
  type.span.Frames file source (type.value.names.map (·.span))

namespace Tree

def Import.WellPlaced
    (i : Import) : Prop :=
  i.span.Frames file source
    (i.package.span :: (Located.places i.range ++ Located.places i.alias?))

/-- The places of the name and the value of an argument. -/
def Argument.places
    (a : Argument) :
    List Span :=
  a.name.span :: Located.places a.value

def Attribute.WellPlaced
    (a : Attribute) : Prop :=
  a.span.Frames file source (a.name.span :: a.args.flatMap Argument.places)

structure Field.WellPlaced
    (f : Field) : Prop where
  frames : f.span.Frames file source (f.name.span :: f.type.span :: Located.places f.alias?)
  type : TypeExpr.WellPlaced file source f.type

def EnumMember.WellPlaced
    (m : EnumMember) : Prop :=
  m.span.Frames file source (m.name.span :: Located.places m.value)

/-- The places of the name and the type of an argument. -/
def EndpointArgument.places
    (a : EndpointArgument) :
    List Span :=
  [a.name.span, a.channel.type.span]

structure Endpoint.WellPlaced
    (e : Endpoint) : Prop where
  frames : e.span.Frames file source
    (e.name.span :: (e.arguments.flatMap EndpointArgument.places ++
      e.response.toList.map (·.type.span) ++ Located.places e.alias?))
  arguments : ∀ a ∈ e.arguments, TypeExpr.WellPlaced file source a.channel.type
  response : ∀ c ∈ e.response, TypeExpr.WellPlaced file source c.type

/-- The place of a field or of a nested declaration. -/
def Member.span : Member Decl → Span
  | .field f => f.span
  | .decl d => d.span

/-- The members of a case lie in its place; the declarations among them have their own condition. -/
structure SubType.WellPlaced
    (s : SubType Decl) : Prop where
  frames : s.span.Frames file source
    (s.name.span :: (Located.places s.alias? ++ s.members.map Member.span))
  fields : ∀ f ∈ Member.fields s.members, f.WellPlaced file source

/-- The places of the parts of a body, in one row for each kind of part that is kept apart. -/
def Body.rows : Body Decl → List (List Span)
  | .type members | .tuple members => [members.map Member.span]
  | .interface members subTypes => [members.map Member.span, subTypes.map (·.span)]
  | .enum found members => [Located.places found ++ members.map (·.span)]
  | .service endpoints decls => [endpoints.map (·.span), decls.map (·.span)]

/-- The parts of a body other than declarations are well placed. -/
def Body.WellPlaced : Body Decl → Prop
  | .type members | .tuple members => ∀ f ∈ Member.fields members, f.WellPlaced file source
  | .interface members subTypes =>
      (∀ f ∈ Member.fields members, f.WellPlaced file source) ∧
        ∀ s ∈ subTypes, s.WellPlaced file source
  | .enum found members =>
      (∀ t ∈ found, TypeExpr.WellPlaced file source t) ∧ ∀ m ∈ members, m.WellPlaced file source
  | .service endpoints _ => ∀ e ∈ endpoints, e.WellPlaced file source

/-- Attributes, the name and the parts of the body lie in the place of a declaration, and so on for
the declarations in it. -/
inductive Decl.WellPlaced : Decl → Prop
  | mk
      {d : Decl}
      (hhead : d.span.Frames file source (d.attributes.map (·.span) ++ [d.name.span]))
      (hattributes : ∀ a ∈ d.attributes, a.WellPlaced file source)
      (hrows : ∀ row ∈ d.body.rows, d.span.Frames file source row)
      (hbody : d.body.WellPlaced file source)
      (hnested : ∀ n ∈ d.body.nested, Decl.WellPlaced n) :
      Decl.WellPlaced d

/-- The imports and the declarations of a file stand one after another. -/
structure File.WellPlaced
    (tree : File) : Prop where
  imports : ∀ i ∈ tree.imports, i.WellPlaced file source
  imports_apart : tree.imports.Pairwise fun i j => i.span.stop ≤ j.span.start
  decls : ∀ d ∈ tree.decls, d.WellPlaced file source
  decls_apart : tree.decls.Pairwise fun d e => d.span.stop ≤ e.span.start

end Tree

end WellPlaced

namespace Tree

open Grammar

section Rows

variable {file : Nat}
variable {source : String}

/-- Parts in a row from one end of a place to the other lie in it. -/
theorem Row.frames
    {span : Span}
    {parts : List Span}
    (hlies : span.LiesIn file source)
    (h : Row file source span.start span.stop parts) :
    span.Frames file source parts :=
  ⟨hlies, fun _ hpart => (h.mem hpart).1, fun _ hpart => (h.mem hpart).2, h.pairwise⟩

/-- Lexemes of a node give its place, and a row of lexemes to lay its parts in. -/
theorem Laid.node
    {a b : Nat}
    {part : List Lexeme}
    (h : Laid file source a b part)
    (hne : part ≠ []) :
    (Grammar.spanOf part).LiesIn file source ∧ Row file source a b [Grammar.spanOf part] ∧
      Laid file source (Grammar.spanOf part).start (Grammar.spanOf part).stop part :=
  ⟨((h.spanOf hne).1.mem List.mem_cons_self).1, h.spanOf hne⟩

/-- What is picked out of a list keeps its order. -/
theorem map_filterMap_sublist
    {α β γ : Type}
    {f : α → Option β}
    {g : β → γ}
    {h : α → Option γ}
    (hpick : ∀ x y, f x = some y → h x = some (g y))
    (xs : List α) :
    ((xs.filterMap f).map g).Sublist (xs.filterMap h) := by
  induction xs with
  | nil =>
      exact .slnil
  | cons x xs ih =>
      cases hx : f x with
      | none =>
          rw [List.filterMap_cons_none hx]
          cases hy : h x with
          | none =>
              rwa [List.filterMap_cons_none hy]
          | some y =>
              rw [List.filterMap_cons_some hy]
              exact ih.cons y
      | some y =>
          rw [List.filterMap_cons_some hx, List.filterMap_cons_some (hpick x y hx)]
          exact ih.cons_cons (g y)

/-- What is picked out of good things in a row is good and lies in a row. -/
theorem Row.pick
    {α β : Type}
    {Good : α → Prop}
    {Good' : β → Prop}
    {place : α → Span}
    {place' : β → Span}
    {xs : List α}
    {a b : Nat}
    (h : (∀ x ∈ xs, Good x) ∧ Row file source a b (xs.map place))
    (f : α → Option β)
    (hpick : ∀ x y, f x = some y → (Good x → Good' y) ∧ place x = place' y) :
    (∀ y ∈ xs.filterMap f, Good' y) ∧ Row file source a b ((xs.filterMap f).map place') := by
  constructor
  · intro y hy
    obtain ⟨x, hx, hxy⟩ := List.mem_filterMap.mp hy
    exact (hpick x y hxy).1 (h.1 x hx)
  · have hsub := map_filterMap_sublist (fun x y hxy => congrArg some (hpick x y hxy).2) xs
    rw [show xs.filterMap (fun x => some (place x)) = xs.map place from
      congrFun List.filterMap_eq_map xs] at hsub
    exact h.2.sublist hsub

end Rows

section Shapes

variable (file : Nat)
variable (source : String)

/-- What a phrase means is good, and its places lie in a row where its lexemes do. -/
def Lays
    {α : Type}
    (P : Phrase α)
    (Good : α → Prop)
    (places : α → List Span) : Prop :=
  ∀ ⦃part x a b⦄, P part x → Laid file source a b part →
    Good x ∧ Row file source a b (places x)

variable {file : Nat}
variable {source : String}
variable {α : Type}
variable {P : Phrase α}
variable {Good : α → Prop}
variable {places places' : α → List Span}

theorem Lays.congr
    (h : Lays file source P Good places)
    (hplaces : ∀ x, places x = places' x) :
    Lays file source P Good places' := by
  intro part x a b hx hrow
  rw [← hplaces x]
  exact h hx hrow

theorem lays_maybe
    (h : Lays file source P Good places) :
    Lays file source (Maybe P) (fun x => ∀ y ∈ x, Good y) (fun x => x.toList.flatMap places) := by
  intro part x a b hx hrow
  cases hx with
  | absent =>
      exact ⟨fun y hy => (by cases hy), hrow⟩
  | present hx =>
      obtain ⟨hgood, hplaces⟩ := h hx hrow
      refine ⟨?_, ?_⟩
      · rintro y ⟨⟩
        exact hgood
      · simpa using hplaces

theorem lays_led
    {symbol : Terminal}
    (h : Lays file source P Good places) :
    Lays file source (Led symbol P) Good places := by
  rintro part x a b ⟨-, hx⟩ hrow
  exact h hx hrow.tail

theorem lays_enclosed
    {opening closing : Punctuation}
    (h : Lays file source P Good places) :
    Lays file source (Enclosed opening closing P) Good places := by
  rintro part x a b ⟨-, hx, -⟩ hrow
  rw [Laid, List.cons_append, List.map_cons] at hrow
  exact h hx (hrow.tail.sublist ((List.sublist_append_left _ _).map _))

theorem lays_many
    (h : Lays file source P Good places) :
    Lays file source (Many P) (fun xs => ∀ x ∈ xs, Good x) (fun xs => xs.flatMap places) := by
  intro part xs a b hxs hrow
  induction hxs generalizing a with
  | nil =>
      exact ⟨fun x hx => (by cases hx), hrow⟩
  | cons hx _ ih =>
      rw [Laid, List.map_append] at hrow
      obtain ⟨m, hfirst, hrest⟩ := row_append.mp hrow
      obtain ⟨hgood, hplaces⟩ := h hx hfirst
      obtain ⟨hgoods, hmore⟩ := ih hrest
      exact ⟨List.forall_mem_cons.mpr ⟨hgood, hgoods⟩, hplaces.append hmore⟩

theorem lays_separated
    {mark : Punctuation}
    (h : Lays file source P Good places) :
    Lays file source (Separated mark P) (fun xs => ∀ x ∈ xs, Good x)
      (fun xs => xs.flatMap places) := by
  rintro part xs a b ⟨hx, hrest⟩ hrow
  rw [Laid, List.map_append] at hrow
  obtain ⟨m, hfirst, hmore⟩ := row_append.mp hrow
  obtain ⟨hgood, hplaces⟩ := h hx hfirst
  obtain ⟨hgoods, hothers⟩ := lays_many (lays_led h) hrest hmore
  exact ⟨List.forall_mem_cons.mpr ⟨hgood, hgoods⟩, hplaces.append hothers⟩

theorem lays_commaList
    (h : Lays file source P Good places) :
    Lays file source (CommaList P) (fun xs => ∀ x ∈ xs, Good x)
      (fun xs => xs.flatMap places) := by
  intro part xs a b hxs hrow
  induction hxs generalizing a with
  | nil =>
      exact ⟨fun x hx => (by cases hx), hrow⟩
  | last hx =>
      obtain ⟨hgood, hplaces⟩ := h hx hrow
      exact ⟨List.forall_mem_singleton.mpr hgood, by simpa using hplaces⟩
  | cons hx _ _ ih =>
      rw [Laid, List.map_append, List.map_cons] at hrow
      obtain ⟨m, hfirst, hrest⟩ := row_append.mp hrow
      obtain ⟨hgood, hplaces⟩ := h hx hfirst
      obtain ⟨hgoods, hmore⟩ := ih hrest.tail
      exact ⟨List.forall_mem_cons.mpr ⟨hgood, hgoods⟩, hplaces.append hmore⟩

section Nodes

variable {place : α → Span}
variable (h : Lays file source P Good fun x => [place x])

include h

theorem lays_maybe_nodes :
    Lays file source (Maybe P) (fun x => ∀ y ∈ x, Good y) (fun x => x.toList.map place) :=
  (lays_maybe h).congr fun _ => List.map_eq_flatMap.symm

theorem lays_many_nodes :
    Lays file source (Many P) (fun xs => ∀ x ∈ xs, Good x) (·.map place) :=
  (lays_many h).congr fun _ => List.map_eq_flatMap.symm

theorem lays_separated_nodes
    {mark : Punctuation} :
    Lays file source (Separated mark P) (fun xs => ∀ x ∈ xs, Good x) (·.map place) :=
  (lays_separated h).congr fun _ => List.map_eq_flatMap.symm

theorem lays_commaList_nodes :
    Lays file source (CommaList P) (fun xs => ∀ x ∈ xs, Good x) (·.map place) :=
  (lays_commaList h).congr fun _ => List.map_eq_flatMap.symm

end Nodes

/-- A phrase in its place is a node. -/
theorem lays_placed
    (hne : ∀ ⦃part x⦄, P part x → part ≠ [])
    (h : Lays file source P Good places) :
    Lays file source (Placed P)
      (fun x => Good x.value ∧ x.span.Frames file source (places x.value))
      (fun x => [x.span]) := by
  rintro part _ a b ⟨hx⟩ hrow
  obtain ⟨hlies, hnode, hparts⟩ := hrow.node (hne hx)
  obtain ⟨hgood, hplaces⟩ := h hx hparts
  exact ⟨⟨hgood, Row.frames hlies hplaces⟩, hnode⟩

end Shapes

section Words

variable (file : Nat)
variable (source : String)

theorem lays_ident :
    Lays file source Ident (fun _ => True) (fun x => [x.span]) := by
  rintro part _ a b ⟨-⟩ hrow
  exact ⟨trivial, hrow⟩

theorem lays_typeIdent :
    Lays file source TypeIdent (fun _ => True) (fun x => [x.span]) := by
  rintro part _ a b ⟨-⟩ hrow
  exact ⟨trivial, hrow⟩

theorem lays_text :
    Lays file source Text (fun _ => True) (fun x => [x.span]) := by
  rintro part _ a b ⟨-⟩ hrow
  exact ⟨trivial, hrow⟩

theorem lays_constant :
    Lays file source Constant (fun _ => True) (fun x => [x.span]) := by
  intro part x a b h hrow
  cases h <;> exact ⟨trivial, hrow⟩

end Words

section Types

variable (file : Nat)
variable (source : String)

theorem lays_name :
    Lays file source Name (fun _ => True) (fun name => [name.span]) := by
  rintro part _ a b h hrow
  have hne := starts_name.ne_nil h
  obtain ⟨-, hnode, -⟩ := hrow.node hne
  cases h
  exact ⟨trivial, hnode⟩

theorem lays_typeOver
    {inner : Phrase TypeExpr}
    (hinner : Lays file source inner (fun _ => True) (fun t => t.names.map (·.span))) :
    Lays file source (TypeOver inner) (fun _ => True) (fun t => t.names.map (·.span)) := by
  intro part type a b h hrow
  refine ⟨trivial, ?_⟩
  cases h with
  | primitive _ =>
      exact hrow.skip
  | name h =>
      exact (lays_name file source h hrow).2
  | array h =>
      exact (lays_enclosed hinner h hrow).2
  | map h =>
      have hentry : Lays file source (MapEntry inner) (fun _ => True)
          (fun entry => (entry.1.names ++ entry.2.names).map (·.span)) := by
        rintro part _ a b ⟨hkey, -, hvalue⟩ hrow
        rw [Laid, List.map_append, List.map_cons] at hrow
        obtain ⟨m, hfirst, hrest⟩ := row_append.mp hrow
        have hboth := (hinner hkey hfirst).2.append (hinner hvalue hrest.tail).2
        rw [← List.map_append] at hboth
        exact ⟨trivial, hboth⟩
      exact (lays_enclosed hentry h hrow).2
  | tuple h =>
      have hitems := (lays_enclosed ((lays_separated hinner).congr fun items => by
        rw [← List.map_flatMap, ← TypeExpr.namesList_eq_flatMap]) h hrow).2
      exact hitems

theorem lays_typeWithin
    (levels : Nat) :
    Lays file source (TypeWithin levels) (fun _ => True) (fun t => t.names.map (·.span)) := by
  induction levels with
  | zero =>
      intro part type a b h
      exact h.elim
  | succ levels ih =>
      exact lays_typeOver file source ih

/-- A written type in its place. -/
theorem lays_type
    (levels : Nat) :
    Lays file source (Placed (TypeWithin levels)) (TypeExpr.WellPlaced file source)
      (fun t => [t.span]) := by
  intro part t a b h hrow
  obtain ⟨⟨-, hframes⟩, hplaces⟩ :=
    lays_placed (fun _ _ => (starts_typeWithin levels).ne_nil) (lays_typeWithin file source levels)
      h hrow
  exact ⟨hframes, hplaces⟩

end Types

section Parts

variable (file : Nat)
variable (source : String)

theorem lays_use :
    Lays file source Use (Import.WellPlaced file source) (fun i => [i.span]) := by
  intro part i a b h hrow
  obtain ⟨hlies, hnode, hparts⟩ := hrow.node (starts_use.ne_nil h)
  cases h with
  | @mk part p q r use stop first more range alias? hpart _ hname hrange halias _ =>
      refine ⟨Row.frames hlies ?_, hnode⟩
      have hinner := hparts.sublist (show ((p ++ (q ++ r)).map (·.span)).Sublist _ from by
        rw [hpart, List.cons_append, List.cons_append, List.cons_append, List.append_assoc p]
        exact ((List.sublist_append_left _ _).cons use).map _)
      rw [List.map_append, List.map_append] at hinner
      obtain ⟨m₁, hp, hqr⟩ := row_append.mp hinner
      obtain ⟨m₂, hq, hr⟩ := row_append.mp hqr
      have hpackage := (lays_separated_nodes (lays_ident file source) hname hp).2.foldl_cover
      rw [List.foldl_map] at hpackage
      have hversions := (lays_maybe_nodes (lays_text file source) hrange hq).2
      have halias := (lays_maybe_nodes (lays_led (lays_ident file source)) halias hr).2
      exact hpackage.append (hversions.append halias)

theorem lays_attributeArgument :
    Lays file source AttributeArgument (fun _ => True) Argument.places := by
  rintro part _ a b ⟨hname, hvalue⟩ hrow
  rw [Laid, List.map_append] at hrow
  obtain ⟨m, hp, hq⟩ := row_append.mp hrow
  exact ⟨trivial, (lays_ident file source hname hp).2.append
    (lays_maybe_nodes (lays_led (lays_constant file source)) hvalue hq).2⟩

theorem lays_hashAttribute :
    Lays file source HashAttribute (Attribute.WellPlaced file source) (fun a => [a.span]) := by
  intro part x a b h hrow
  obtain ⟨hlies, hnode, hparts⟩ := hrow.node (starts_hashAttribute.ne_nil h)
  cases h with
  | @mk part p q hash opening closing name args hpart _ _ hname hargs _ =>
      refine ⟨Row.frames hlies ?_, hnode⟩
      have hinner := hparts.sublist (show ((p ++ q).map (·.span)).Sublist _ from by
        rw [hpart]
        exact (((List.sublist_append_left _ _).cons opening).cons hash).map _)
      rw [List.map_append] at hinner
      obtain ⟨m, hp, hq⟩ := row_append.mp hinner
      refine (lays_ident file source hname hp).2.append ?_
      cases hargs with
      | absent =>
          exact hq
      | present hargs =>
          exact (lays_enclosed (lays_commaList (lays_attributeArgument file source)) hargs hq).2

variable (levels : Nat)

/-- The parts of a field lie in a row where its lexemes do. -/
theorem row_fieldParts
    {part : List Lexeme}
    {f : Field}
    {a b : Nat}
    (h : FieldParts (TypeWithin levels) part f)
    (hrow : Laid file source a b part) :
    TypeExpr.WellPlaced file source f.type ∧ f.span = spanOf part ∧
      Row file source a b (f.name.span :: f.type.span :: Located.places f.alias?) := by
  cases h with
  | @mk part p q r s colon name optional found alias? hpart hname _ _ htype halias =>
      have hinner := hrow.sublist (show ((p ++ (r ++ s)).map (·.span)).Sublist _ from by
        rw [hpart, List.append_assoc, List.append_assoc]
        exact ((List.Sublist.refl p).append (((List.Sublist.refl (r ++ s)).cons colon).trans
          (List.sublist_append_right q _))).map _)
      rw [List.map_append, List.map_append] at hinner
      obtain ⟨m₁, hp, hrs⟩ := row_append.mp hinner
      obtain ⟨m₂, hr, hs⟩ := row_append.mp hrs
      obtain ⟨hwell, htypeRow⟩ := lays_type file source levels htype hr
      refine ⟨hwell, rfl, (lays_ident file source hname hp).2.append (htypeRow.append ?_)⟩
      exact (lays_maybe_nodes (lays_led (lays_text file source)) halias hs).2

theorem lays_fieldParts :
    Lays file source (FieldParts (TypeWithin levels)) (Field.WellPlaced file source)
      (fun f => [f.span]) := by
  intro part f a b h hrow
  obtain ⟨hlies, hnode, hparts⟩ := hrow.node ((starts_fieldParts _).ne_nil h)
  obtain ⟨htype, hspan, hrow'⟩ := row_fieldParts file source levels h hparts
  rw [← hspan] at hlies hnode hrow'
  exact ⟨⟨Row.frames hlies hrow', htype⟩, hnode⟩

/-- The semicolon of a field belongs to its place. -/
theorem lays_fieldLine :
    Lays file source (FieldLine (TypeWithin levels)) (Field.WellPlaced file source)
      (fun f => [f.span]) := by
  rintro _ _ a b ⟨h, -⟩ hrow
  rw [Laid, List.map_append] at hrow
  obtain ⟨m, hp, hstop⟩ := row_append.mp hrow
  obtain ⟨-, hnode⟩ := lays_fieldParts file source levels h hp
  have hcover := (hnode.append hstop).cover
  obtain ⟨hlies, -, -⟩ := hcover.mem List.mem_cons_self
  obtain ⟨-, -, hparts⟩ := Laid.node hp ((starts_fieldParts _).ne_nil h)
  obtain ⟨htype, hspan, hrow'⟩ := row_fieldParts file source levels h hparts
  rw [← hspan] at hrow'
  refine ⟨⟨Row.frames hlies ?_, htype⟩, hcover⟩
  exact hrow'.mono (min_le_left _ _) (le_max_left _ _)

theorem lays_enumLine :
    Lays file source EnumLine (EnumMember.WellPlaced file source) (fun m => [m.span]) := by
  intro part m a b h hrow
  obtain ⟨hlies, hnode, hparts⟩ := hrow.node (starts_enumLine.ne_nil h)
  cases h with
  | @mk part p q stop name value hpart hname hvalue _ =>
      refine ⟨Row.frames hlies ?_, hnode⟩
      rw [hpart, Laid, List.map_append, List.map_append] at hparts
      obtain ⟨m₁, hpq, hstop⟩ := row_append.mp hparts
      obtain ⟨m₂, hp, hq⟩ := row_append.mp hpq
      rw [← hpart] at hp hstop
      refine ((lays_typeIdent file source hname hp).2.append ?_).mono le_rfl hstop.le
      exact (lays_maybe_nodes (lays_led (lays_constant file source)) hvalue hq).2

theorem lays_stream :
    Lays file source (Stream (TypeWithin levels))
      (fun c => TypeExpr.WellPlaced file source c.type) (fun c => [c.type.span]) := by
  rintro part _ a b ⟨-, htype⟩ hrow
  exact lays_type file source levels htype
    (hrow.sublist ((List.sublist_append_right _ _).map _))

theorem lays_channelArgument :
    Lays file source (ChannelArgument (TypeWithin levels))
      (fun a => TypeExpr.WellPlaced file source a.channel.type) EndpointArgument.places := by
  rintro part _ a b ⟨hname, -, hchannel⟩ hrow
  rw [Laid, List.map_append, List.map_cons] at hrow
  obtain ⟨m, hp, hq⟩ := row_append.mp hrow
  obtain ⟨htype, hplace⟩ := lays_stream file source levels hchannel hq.tail
  exact ⟨htype, (lays_ident file source hname hp).2.append hplace⟩

theorem lays_endpointLine :
    Lays file source (EndpointLine (TypeWithin levels)) (Endpoint.WellPlaced file source)
      (fun e => [e.span]) := by
  intro part e a b h hrow
  obtain ⟨hlies, hnode, hparts⟩ := hrow.node ((starts_endpointLine _).ne_nil h)
  cases h with
  | @mk part p q r s stop name arguments response alias? hpart hname harguments hresponse halias _ =>
      have hinner := hparts.sublist (show ((p ++ (q ++ r ++ s)).map (·.span)).Sublist _ from by
        rw [hpart, ← List.append_assoc, ← List.append_assoc]
        exact (List.sublist_append_left _ _).map _)
      rw [List.map_append, List.map_append, List.map_append] at hinner
      obtain ⟨m₁, hp, hqrs⟩ := row_append.mp hinner
      obtain ⟨m₂, hqr, hs⟩ := row_append.mp hqrs
      obtain ⟨m₃, hq, hr⟩ := row_append.mp hqr
      obtain ⟨hargs, hargsRow⟩ :=
        lays_enclosed (lays_commaList (lays_channelArgument file source levels)) harguments hq
      obtain ⟨hresp, hrespRow⟩ :=
        lays_maybe_nodes (lays_led (lays_stream file source levels)) hresponse hr
      refine ⟨⟨Row.frames hlies ?_, hargs, hresp⟩, hnode⟩
      refine (lays_ident file source hname hp).2.append ((hargsRow.append hrespRow).append ?_)
      exact (lays_maybe_nodes (lays_led (lays_text file source)) halias hs).2

end Parts

section Declarations

variable (file : Nat)
variable (source : String)

/-- A member is well placed. -/
def Member.WellPlaced : Member Decl → Prop
  | .field f => f.WellPlaced file source
  | .decl d => d.WellPlaced file source

/-- Members are well placed if the fields and the declarations among them are. -/
theorem Member.wellPlaced_iff
    (members : List (Member Decl)) :
    (∀ m ∈ members, m.WellPlaced file source) ↔
      (∀ f ∈ Member.fields members, f.WellPlaced file source) ∧
        ∀ d ∈ Member.decls members, d.WellPlaced file source := by
  induction members with
  | nil =>
      simp [Member.fields, Member.decls]
  | cons m members ih =>
      cases m with
      | field f =>
          rw [List.forall_mem_cons, ih, Member.fields, Member.decls, List.forall_mem_cons, and_assoc]
          rfl
      | decl d =>
          rw [List.forall_mem_cons, ih, Member.fields, Member.decls, List.forall_mem_cons,
            and_left_comm]
          rfl

/-- The place of an item of an interface. -/
def InterfaceItem.span : InterfaceItem → Span
  | .member m => m.span
  | .subType s => s.span

/-- An item of an interface is well placed, and so are the declarations in it. -/
def InterfaceItem.WellPlaced : InterfaceItem → Prop
  | .member m => m.WellPlaced file source
  | .subType s =>
      s.WellPlaced file source ∧ ∀ d ∈ Member.decls s.members, d.WellPlaced file source

/-- The place of an item of a service. -/
def ServiceItem.span : ServiceItem → Span
  | .endpoint e => e.span
  | .decl d => d.span

/-- An item of a service is well placed. -/
def ServiceItem.WellPlaced : ServiceItem → Prop
  | .endpoint e => e.WellPlaced file source
  | .decl d => d.WellPlaced file source

variable {file : Nat}
variable {source : String}

theorem pick_member
    (item : InterfaceItem)
    (m : Member Decl)
    (h : item.member? = some m) :
    (item.WellPlaced file source → m.WellPlaced file source) ∧ item.span = m.span := by
  cases item with
  | member _ =>
      cases h
      exact ⟨id, rfl⟩
  | subType _ =>
      cases h

theorem pick_subType
    (item : InterfaceItem)
    (s : SubType Decl)
    (h : item.subType? = some s) :
    (item.WellPlaced file source →
        s.WellPlaced file source ∧ ∀ d ∈ Member.decls s.members, d.WellPlaced file source) ∧
      item.span = s.span := by
  cases item with
  | member _ =>
      cases h
  | subType _ =>
      cases h
      exact ⟨id, rfl⟩

theorem pick_endpoint
    (item : ServiceItem)
    (e : Endpoint)
    (h : item.endpoint? = some e) :
    (item.WellPlaced file source → e.WellPlaced file source) ∧ item.span = e.span := by
  cases item with
  | endpoint _ =>
      cases h
      exact ⟨id, rfl⟩
  | decl _ =>
      cases h

theorem pick_decl
    (item : ServiceItem)
    (d : Decl)
    (h : item.decl? = some d) :
    (item.WellPlaced file source → d.WellPlaced file source) ∧ item.span = d.span := by
  cases item with
  | endpoint _ =>
      cases h
  | decl _ =>
      cases h
      exact ⟨id, rfl⟩

variable (file : Nat)
variable (source : String)
variable {decl : Phrase Decl}
variable (hdecl : Lays file source decl (Decl.WellPlaced file source) (fun d => [d.span]))
variable (levels : Nat)

include hdecl

theorem lays_memberOver :
    Lays file source (MemberOver decl (TypeWithin levels)) (Member.WellPlaced file source)
      (fun m => [m.span]) := by
  intro part m a b h hrow
  cases h with
  | field h =>
      exact lays_fieldLine file source levels h hrow
  | decl h =>
      exact hdecl h hrow

theorem lays_members :
    Lays file source (Braced (MemberOver decl (TypeWithin levels)))
      (fun members => ∀ m ∈ members, m.WellPlaced file source) (·.map Member.span) := by
  intro part members a b h hrow
  exact lays_enclosed (lays_many_nodes (lays_memberOver file source hdecl levels)) h hrow

theorem lays_tupleBody :
    Lays file source (TupleBody decl (TypeWithin levels))
      (fun members => ∀ m ∈ members, m.WellPlaced file source) (·.map Member.span) := by
  intro part members a b h hrow
  cases h with
  | @«inline» p q fields ended hfields _ =>
      have hinner := hrow.sublist ((List.sublist_append_left p q).map _)
      obtain ⟨hgood, hplaces⟩ :=
        lays_enclosed (lays_commaList_nodes (lays_fieldParts file source levels)) hfields hinner
      refine ⟨fun m hm => ?_, ?_⟩
      · obtain ⟨f, hf, rfl⟩ := List.mem_map.mp hm
        exact hgood f hf
      · change Row file source a b ((fields.map Member.field).map Member.span)
        rw [List.map_map]
        exact hplaces
  | braced h =>
      exact lays_members file source hdecl levels h hrow

theorem lays_subTypeBody :
    Lays file source (SubTypeBody decl (TypeWithin levels))
      (fun members => ∀ m ∈ members, m.WellPlaced file source) (·.map Member.span) := by
  intro part members a b h hrow
  cases h with
  | braced h =>
      exact lays_members file source hdecl levels h hrow
  | empty _ =>
      exact ⟨fun m hm => (by cases hm), hrow.skip⟩

theorem lays_subTypeOver :
    Lays file source (SubTypeOver decl (TypeWithin levels))
      (fun s => s.WellPlaced file source ∧
        ∀ d ∈ Member.decls s.members, d.WellPlaced file source)
      (fun s => [s.span]) := by
  intro part s a b h hrow
  obtain ⟨hlies, hnode, hparts⟩ := hrow.node ((starts_subTypeOver _ _).ne_nil h)
  cases h with
  | @mk part p q r name alias? members hpart hname halias hmembers =>
      have hinner := hparts.sublist (show ((p ++ (q ++ r)).map (·.span)).Sublist _ from by
        rw [hpart, List.append_assoc])
      rw [List.map_append, List.map_append] at hinner
      obtain ⟨m₁, hp, hqr⟩ := row_append.mp hinner
      obtain ⟨m₂, hq, hr⟩ := row_append.mp hqr
      obtain ⟨hgood, hplaces⟩ := lays_subTypeBody file source hdecl levels hmembers hr
      obtain ⟨hfields, hdecls⟩ := (Member.wellPlaced_iff file source members).mp hgood
      refine ⟨⟨⟨Row.frames hlies ?_, hfields⟩, hdecls⟩, hnode⟩
      refine (lays_typeIdent file source hname hp).2.append (Row.append ?_ hplaces)
      exact (lays_maybe_nodes (lays_led (lays_constant file source)) halias hq).2

theorem lays_interfaceLine :
    Lays file source (InterfaceLine decl (TypeWithin levels))
      (InterfaceItem.WellPlaced file source) (fun item => [item.span]) := by
  intro part item a b h hrow
  cases h with
  | member h =>
      exact lays_memberOver file source hdecl levels h hrow
  | subType h =>
      exact lays_subTypeOver file source hdecl levels h hrow

theorem lays_serviceLine :
    Lays file source (ServiceLine decl (TypeWithin levels))
      (ServiceItem.WellPlaced file source) (fun item => [item.span]) := by
  intro part item a b h hrow
  cases h with
  | endpoint h =>
      exact lays_endpointLine file source levels h hrow
  | decl h =>
      exact hdecl h hrow

/-- The parts of a body are well placed, and each of its rows lies where its lexemes do. -/
theorem lays_bodyOver
    {word : DeclWord}
    {part : List Lexeme}
    {body : Body Decl}
    {a b : Nat}
    (h : BodyOver decl (TypeWithin levels) word part body)
    (hrow : Laid file source a b part) :
    (body.WellPlaced file source ∧ ∀ d ∈ body.nested, d.WellPlaced file source) ∧
      ∀ row ∈ body.rows, Row file source a b row := by
  cases h with
  | type h =>
      obtain ⟨hgood, hplaces⟩ := lays_members file source hdecl levels h hrow
      exact ⟨(Member.wellPlaced_iff file source _).mp hgood, List.forall_mem_singleton.mpr hplaces⟩
  | tuple h =>
      obtain ⟨hgood, hplaces⟩ := lays_tupleBody file source hdecl levels h hrow
      exact ⟨(Member.wellPlaced_iff file source _).mp hgood, List.forall_mem_singleton.mpr hplaces⟩
  | interface h =>
      have hitems := lays_enclosed (lays_many_nodes (lays_interfaceLine file source hdecl levels)) h hrow
      obtain ⟨hmembers, hmemberRow⟩ := Row.pick hitems InterfaceItem.member? pick_member
      obtain ⟨hsubTypes, hsubTypeRow⟩ := Row.pick hitems InterfaceItem.subType? pick_subType
      obtain ⟨hfields, hdecls⟩ := (Member.wellPlaced_iff file source _).mp hmembers
      refine ⟨⟨⟨hfields, fun s hs => (hsubTypes s hs).1⟩, fun d hd => ?_⟩,
        List.forall_mem_cons.mpr ⟨hmemberRow, List.forall_mem_singleton.mpr hsubTypeRow⟩⟩
      rcases List.mem_append.mp hd with hd | hd
      · exact hdecls d hd
      · obtain ⟨s, hs, hd⟩ := List.mem_flatMap.mp hd
        exact (hsubTypes s hs).2 d hd
  | enum hfound hmembers =>
      rw [Laid, List.map_append] at hrow
      obtain ⟨m, hp, hq⟩ := row_append.mp hrow
      obtain ⟨htype, htypeRow⟩ :=
        lays_maybe_nodes (lays_led (lays_type file source levels)) hfound hp
      obtain ⟨hgood, hplaces⟩ :=
        lays_enclosed (lays_many_nodes (lays_enumLine file source)) hmembers hq
      exact ⟨⟨⟨htype, hgood⟩, fun d hd => (by cases hd)⟩,
        List.forall_mem_singleton.mpr (htypeRow.append hplaces)⟩
  | service h =>
      have hitems := lays_enclosed (lays_many_nodes (lays_serviceLine file source hdecl levels)) h hrow
      obtain ⟨hendpoints, hendpointRow⟩ := Row.pick hitems ServiceItem.endpoint? pick_endpoint
      obtain ⟨hdecls, hdeclRow⟩ := Row.pick hitems ServiceItem.decl? pick_decl
      exact ⟨⟨hendpoints, hdecls⟩,
        List.forall_mem_cons.mpr ⟨hendpointRow, List.forall_mem_singleton.mpr hdeclRow⟩⟩

theorem lays_declOver :
    Lays file source (DeclOver decl (TypeWithin levels)) (Decl.WellPlaced file source)
      (fun d => [d.span]) := by
  intro part d a b h hrow
  obtain ⟨hlies, hnode, hparts⟩ := hrow.node ((starts_declOver _ _).ne_nil h)
  cases h with
  | @mk part p q r s attributes word name body hpart hattributes _ hname hbody =>
      have hinner := hparts.sublist (show ((p ++ (r ++ s)).map (·.span)).Sublist _ from by
        rw [hpart, List.append_assoc, List.append_assoc]
        exact ((List.Sublist.refl p).append (List.sublist_append_right q _)).map _)
      rw [List.map_append, List.map_append] at hinner
      obtain ⟨m₁, hp, hrs⟩ := row_append.mp hinner
      obtain ⟨m₂, hr, hs⟩ := row_append.mp hrs
      obtain ⟨hgood, hattributeRow⟩ :=
        lays_many_nodes (lays_hashAttribute file source) hattributes hp
      have hnameRow := (lays_typeIdent file source hname hr).2
      obtain ⟨⟨hwell, hnested⟩, hrows⟩ := lays_bodyOver file source hdecl levels hbody hs
      refine ⟨.mk (Row.frames hlies ?_) hgood (fun row hrow => Row.frames hlies ?_) hwell hnested,
        hnode⟩
      · exact (hattributeRow.append hnameRow).mono le_rfl hs.le
      · exact (hrows row hrow).mono (hp.le.trans hr.le) le_rfl

end Declarations

section Files

variable (file : Nat)
variable (source : String)

/-- Declarations of each depth are well placed. -/
theorem lays_declWithin
    (levels : Nat) :
    Lays file source (DeclWithin levels) (Decl.WellPlaced file source) (fun d => [d.span]) := by
  induction levels with
  | zero =>
      intro part d a b h
      exact h.elim
  | succ levels ih =>
      exact lays_declOver file source ih levels

/-- The place of an import or a declaration. -/
def Item.span : Item → Span
  | .imported i => i.span
  | .decl d => d.span

/-- An import or a declaration is well placed. -/
def Item.WellPlaced : Item → Prop
  | .imported i => i.WellPlaced file source
  | .decl d => d.WellPlaced file source

theorem lays_fileItem :
    Lays file source FileItem (Item.WellPlaced file source) (fun item => [item.span]) := by
  intro part item a b h hrow
  cases h with
  | imported h =>
      exact lays_use file source h hrow
  | decl h =>
      exact lays_declWithin file source maxNesting h hrow

/-- The place of an item that was read. -/
def Item.span? : Except ParseError Item → Option Span
  | .ok item => some item.span
  | .error _ => none

variable {file : Nat}
variable {source : String}

/-- Where lexemes lie in a row, the items that are read do, and errors stand among them. -/
theorem Reads.places
    {eof : Span}
    {lexemes : List Lexeme}
    {found : List (Except ParseError Item)}
    {a b : Nat}
    (h : Reads eof lexemes found)
    (heof : eof.LiesIn file source)
    (hrow : Laid file source a b lexemes) :
    (∀ item, .ok item ∈ found → item.WellPlaced file source) ∧
      (∀ e, .error e ∈ found → e.span.LiesIn file source) ∧
      Row file source a b (found.filterMap Item.span?) := by
  induction h generalizing a with
  | done lexemes =>
      exact ⟨fun _ h => (by cases h), fun _ h => (by cases h), hrow.skip⟩
  | item hitem _ ih =>
      rw [Laid, List.map_append] at hrow
      obtain ⟨m, hfirst, hrest⟩ := row_append.mp hrow
      obtain ⟨hgood, hplace⟩ := lays_fileItem file source hitem hfirst
      obtain ⟨hitems, herrors, hplaces⟩ := ih hrest
      refine ⟨fun item h => ?_, fun e h => ?_, hplace.append hplaces⟩
      · rcases List.mem_cons.mp h with heq | h
        · cases heq
          exact hgood
        · exact hitems item h
      · rcases List.mem_cons.mp h with heq | h
        · cases heq
        · exact herrors e h
  | error hspan hkept _ ih =>
      obtain ⟨hitems, herrors, hplaces⟩ := ih (hkept.laid hrow)
      refine ⟨fun item h => ?_, fun e h => ?_, hplaces⟩
      · rcases List.mem_cons.mp h with heq | h
        · cases heq
        · exact hitems item h
      · rcases List.mem_cons.mp h with heq | h
        · cases heq
          rcases hspan with hspan | ⟨l, hl, hspan⟩
          · rw [hspan]
            exact heof
          · rw [hspan]
            exact (hrow.mem (List.mem_map_of_mem hl)).1
        · exact herrors e h

theorem Item.eq_of_import?
    {found : Except ParseError Item}
    {i : Import}
    (h : Item.import? found = some i) :
    found = .ok (.imported i) := by
  rcases found with e | ⟨i' | d⟩
  · cases h
  · cases h
    rfl
  · cases h

theorem Item.eq_of_decl?
    {found : Except ParseError Item}
    {d : Decl}
    (h : Item.decl? found = some d) :
    found = .ok (.decl d) := by
  rcases found with e | ⟨i | d'⟩
  · cases h
  · cases h
  · cases h
    rfl

theorem Item.eq_of_error?
    {found : Except ParseError Item}
    {e : ParseError}
    (h : Item.error? found = some e) :
    found = .error e := by
  cases found with
  | error _ =>
      cases h
      rfl
  | ok _ =>
      cases h

/-- Every place in a tree and in the errors of a text stands in the text.

* The imports and the declarations of a file stand one after another, and so do the parts of each
  of them; each node has the places of its parts in its own.
* Errors stand in the text, and those of single tokens show the escape or the character that they
  are about. -/
theorem parse_wellPlaced
    (file : Nat)
    (source : String) :
    (parse file source).1.WellPlaced file source ∧
      (∀ e ∈ (parse file source).2, e.span.LiesIn file source) ∧
      ∀ e ∈ (Lexeme.ofSource file source).errors, ShowsText source e := by
  obtain ⟨hitems, herrors, hrow⟩ :=
    (ofLexemes_reads file source.utf8ByteSize (Lexeme.ofSource file source).lexemes).places
      (liesIn_end file source) (lexemes_row file source)
  refine ⟨⟨fun i hi => ?_, ?_, fun d hd => ?_, ?_⟩, fun e he => ?_, fun e he => ?_⟩
  · obtain ⟨item, hitem, hpick⟩ := List.mem_filterMap.mp hi
    exact hitems (.imported i) (Item.eq_of_import? hpick ▸ hitem)
  · refine List.pairwise_map.mp (hrow.sublist (map_filterMap_sublist ?_ _)).pairwise
    intro found i hpick
    rw [Item.eq_of_import? hpick]
    rfl
  · obtain ⟨item, hitem, hpick⟩ := List.mem_filterMap.mp hd
    exact hitems (.decl d) (Item.eq_of_decl? hpick ▸ hitem)
  · refine List.pairwise_map.mp (hrow.sublist (map_filterMap_sublist ?_ _)).pairwise
    intro found d hpick
    rw [Item.eq_of_decl? hpick]
    rfl
  · rcases List.mem_append.mp he with he | he
    · exact (lexerError_lies file source he).1
    · obtain ⟨item, hitem, hpick⟩ := List.mem_filterMap.mp he
      exact herrors e (Item.eq_of_error? hpick ▸ hitem)
  · exact (lexerError_lies file source he).2

end Files

end Tree
end Schemata
