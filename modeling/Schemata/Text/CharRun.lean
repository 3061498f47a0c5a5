/-!
# Text: runs of code points

A property of characters is given as a list of runs.  A run of step one is an
interval; a run of step two names every other code point, which is how the two
cases of many alphabets alternate.
-/

namespace Schemata
namespace Text

/-- The code points `first`, `first + step`, … that do not pass `last`. -/
structure CharRun where
  first : Nat
  last : Nat
  step : Nat

namespace CharRun

/-- The code point belongs to the run. -/
def contains
    (run : CharRun)
    (n : Nat) :
    Bool :=
  run.first ≤ n && n ≤ run.last && (n - run.first) % run.step == 0

/-- The code point belongs to one of the runs. -/
def anyContains
    (runs : List CharRun)
    (n : Nat) :
    Bool :=
  runs.any (·.contains n)

end CharRun

end Text
end Schemata
