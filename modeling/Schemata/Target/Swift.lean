import Schemata.Emit.Backend
import Schemata.Schema.Lookup
import Schemata.Schema.Nesting
import Schemata.Target.SwiftCodec

/-!
# Swift: declarations and files

Each package has one file.  A struct cannot contain itself, not even where a
field is optional, and a protocol has no streams; declarations that need these
are refused.

`leadsTo` looks for a struct among those that are stored in a struct, directly
or in one another, with a stack of structs whose fields are still to be read.
A struct goes on the stack once: it leaves fewer structs unseen, or has no
fields where there is no such declaration.
-/

namespace Schemata
namespace Target
namespace Swift

open Code

/-- What a search has left to do: each field counts for itself and for the struct that it may put on
the stack. -/
def searchWeight
    (s : Schema)
    (stack : List DeclId)
    (fields : List Field) :
    Nat :=
  2 * (fields ++ stack.flatMap fun id => (s.decl id).fields).length + stack.length

theorem lex_push
    (s : Schema)
    {target : DeclId}
    {seen : List DeclId}
    (hnew : target ∉ seen)
    (stack : List DeclId)
    (f : Field)
    (fields : List Field) :
    Prod.Lex (· < ·) (· < ·)
      ((s.unseen (target :: seen)).length, searchWeight s (target :: stack) fields)
      ((s.unseen seen).length, searchWeight s stack (f :: fields)) := by
  by_cases htarget : target ∈ s.ids
  · exact .left _ _ (s.length_unseen_cons_lt htarget hnew)
  · have hnone : (s.decl target).fields = [] := by
      rw [Schema.decl_eq_absent htarget]
      rfl
    rw [s.unseen_cons_of_notMem seen htarget]
    refine .right _ ?_
    simp only [searchWeight, List.flatMap_cons, hnone, List.nil_append, List.cons_append,
      List.length_cons]
    omega

/-- One of the fields, or of the fields of the structs on the stack and of those that they lead to,
has the type `goal`.  Of the structs `seen` each has been on the stack. -/
def leadsTo
    (s : Schema)
    (goal : DeclId)
    (seen stack : List DeclId) :
    List Field → Bool
  | [] =>
      match stack with
      | [] => false
      | id :: stack => leadsTo s goal seen stack (s.decl id).fields
  | f :: fields =>
      match f.type.decl? with
      | none => leadsTo s goal seen stack fields
      | some target =>
          if target = goal then true
          else if (s.decl target).body.isStruct = true ∧ target ∉ seen then
            leadsTo s goal (target :: seen) (target :: stack) fields
          else leadsTo s goal seen stack fields
termination_by fields => ((s.unseen seen).length, searchWeight s stack fields)
decreasing_by
  · exact .right _ (by simp [searchWeight])
  · exact .right _ (by simp [searchWeight])
  · rename_i h
    exact lex_push s h.2 stack f fields
  · exact .right _ (by simp [searchWeight])

/-- The declaration is a struct that contains itself. -/
def containsItself
    (s : Schema)
    (id : DeclId) :
    Bool :=
  (s.decl id).body.isStruct && leadsTo s id [id] [id] []

/-- What cannot be expressed in an endpoint. -/
def endpointFeature?
    (e : Endpoint) :
    Option String :=
  if e.channels.any (·.streaming) then some "streaming endpoints"
  else if e.channels.any (·.type.hasInlineTuple) then some "inline tuple types"
  else none

/-- What cannot be expressed in the definition of a declaration, apart from what is inside it. -/
def feature? : DeclBody → Option String
  | .service endpoints => endpoints.findSome? endpointFeature?
  | body => if body.memberTypes.any (·.hasInlineTuple) then some "inline tuple types" else none

/-- The first refusal: structs that contain themselves, then what definitions cannot express. -/
def refusal?
    (s : Schema)
    (root : DeclId) :
    Option Refusal :=
  match (s.withDescendants root).find? (containsItself s) with
  | some id => some ⟨id, "a struct that contains itself"⟩
  | none =>
      (s.nesting root).preorder.findSome? fun id =>
        (feature? (s.decl id).body).map (⟨id, ·⟩)

/-- The definitions of a declaration and of those inside it, then their extensions. -/
def declCode
    (s : Schema)
    (root : DeclId) :
    Code :=
  (s.nesting root).fold (definition s) ++ (s.withDescendants root).flatMap (extensions s)

/-- The file of some fragments. -/
def assemble
    (fragments : List Fragment) :
    String :=
  render "  " <|
    line "import Foundation" ++ fragments.flatMap fun f => blank ++ embed f.text

end Swift

/-- The writer of Swift code. -/
def swift : Backend :=
  { name := "swift"
    language := "Swift"
    extension := "swift"
    path := fun s root =>
      Emit.namespaceFile "swift" (Swift.segments (s.package root.package))
    refusal? := Swift.refusal?
    text := fun s _ root => Code.render "  " (Swift.declCode s root)
    assemble := fun _ _ fragments => Swift.assemble fragments }

end Target
end Schemata
