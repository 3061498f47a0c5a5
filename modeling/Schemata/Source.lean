/-!
# Source text: spans

Places in source files are byte ranges of their UTF-8 text.
-/

namespace Schemata

/-- A byte range of one file. -/
structure Span where
  file : Nat
  start : Nat
  stop : Nat
deriving DecidableEq, Repr, Inhabited

/-- The smallest span that covers two spans of one file. -/
def Span.cover
    (a b : Span) :
    Span :=
  { file := a.file
    start := min a.start b.start
    stop := max a.stop b.stop }

/-- A value with the place that it was read from. -/
structure Located (α : Type) where
  value : α
  span : Span
deriving DecidableEq, Repr

end Schemata
