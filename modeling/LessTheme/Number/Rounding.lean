/-!
# Rounding to the nearest integer

Exact quotients of natural numbers are rounded once, to the nearest integer; a
tie goes to the even neighbour.
-/

namespace LessTheme
namespace Number

/-- The integer nearest to a quotient; of two equally near ones the even one. -/
def nearest (numerator denominator : Nat) : Nat :=
  let quotient := numerator / denominator
  let twice := 2 * (numerator % denominator)
  if twice < denominator then quotient
  else if twice > denominator then quotient + 1
  else if quotient % 2 = 0 then quotient
  else quotient + 1

end Number
end LessTheme
