/-!
# Decimal: rounding quotients

Division of natural numbers to the nearest whole number.  A half goes where
the given `Tie` says.
-/

namespace Schemata
namespace Decimal

/-- Where a half goes. -/
inductive Tie where
  | toEven
  | up
deriving DecidableEq, Repr

/-- The tie rule takes the larger of the two neighbours `low` and `low + 1`. -/
def Tie.takesUpper
    (tie : Tie)
    (low : Nat) :
    Bool :=
  match tie with
  | .up => true
  | .toEven => low % 2 == 1

/-- `num / den`, to the nearest whole number. -/
def roundDiv
    (tie : Tie)
    (num den : Nat) :
    Nat :=
  let low := num / den
  let twice := 2 * (num % den)
  if twice < den then low
  else if den < twice then low + 1
  else if tie.takesUpper low then low + 1
  else low

/-- A rounded quotient is the lower or the upper neighbour. -/
theorem roundDiv_eq_or
    (tie : Tie)
    (num den : Nat) :
    roundDiv tie num den = num / den ∨ roundDiv tie num den = num / den + 1 := by
  unfold roundDiv
  dsimp only
  split
  · exact Or.inl rfl
  · split
    · exact Or.inr rfl
    · split
      · exact Or.inr rfl
      · exact Or.inl rfl

end Decimal
end Schemata
