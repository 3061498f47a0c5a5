import Schemata.Resolve.Error
import Schemata.Tree.Error

/-!
# Diagnostics

Problems of every stage in one form: a severity, a message, marked places and
notes.
-/

namespace Schemata

/-- How bad a problem is. -/
inductive Severity where
  | error
  | warning
deriving DecidableEq, Repr

/-- How a place is marked. -/
inductive LabelStyle where
  | primary
  | secondary
deriving DecidableEq, Repr

/-- A marked place. -/
structure Label where
  style : LabelStyle
  span : Span
  message : String
deriving DecidableEq, Repr

/-- A problem to be shown. -/
structure Diagnostic where
  severity : Severity
  message : String
  labels : List Label
  notes : List String
deriving DecidableEq, Repr

namespace Diagnostic

/-- The diagnostic reports an error. -/
def isError
    (d : Diagnostic) :
    Bool :=
  d.severity == .error

/-- The number of errors. -/
def errorCount
    (ds : List Diagnostic) :
    Nat :=
  (ds.filter (·.isError)).length

/-- At least one diagnostic reports an error. -/
def hasErrors
    (ds : List Diagnostic) :
    Bool :=
  0 < errorCount ds

/-- The first line in which a diagnostic is shown. -/
def headline
    (d : Diagnostic) :
    String :=
  match d.severity with
  | .error => s!"error: {d.message}"
  | .warning => s!"warning: {d.message}"

end Diagnostic

/-- The diagnostic of an error of reading. -/
def ParseError.toDiagnostic
    (e : ParseError) :
    Diagnostic :=
  { severity := .error
    message := e.message
    labels := [⟨.primary, e.span, e.problem.label⟩]
    notes := [] }

/-- Advice that comes with a problem of resolution. -/
def ResolveProblem.notes : ResolveProblem → List String
  | .namespaceCollision _ => ["use a version scheme that keeps more version components"]
  | _ => []

/-- The diagnostic of an error of resolution. -/
def ResolveError.toDiagnostic
    (e : ResolveError) :
    Diagnostic :=
  { severity := .error
    message := e.message
    labels :=
      (e.span.map fun s => ⟨.primary, s, ""⟩).toList
        ++ (e.previous.map fun s => ⟨.secondary, s, "first defined here"⟩).toList
    notes := e.problem.notes }

/-- The diagnostic of a cycle of required fields. -/
def RequiredCycle.toDiagnostic
    (w : RequiredCycle) :
    Diagnostic :=
  { severity := .warning
    message := w.message
    labels := [⟨.primary, w.span, ""⟩]
    notes := ["make one of the fields optional, or hold it in an array or map"] }

end Schemata
