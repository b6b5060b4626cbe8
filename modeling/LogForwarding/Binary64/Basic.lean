/-
# Doubles

A finite double is a sign and a magnitude, and the magnitude is a whole number
of units of 2^-1074 with at most 53 significant bits. Everything here is exact
arithmetic on such numbers followed by one rounding: to the nearest double,
and to the even one of two that are equally near.

Key definitions: `Binary64`, `Binary64.nearest?`, `Binary64.scale?`.
-/
namespace LogForwarding

/-- A finite double. -/
structure Binary64 where
  /-- The value has a minus sign, which zero can have as well. -/
  negative : Bool
  /-- The magnitude, in units of 2^-1074. -/
  units : Nat
  deriving DecidableEq, Repr

namespace Binary64

/-- How many units make one. -/
def one : Nat := Nat.pow 2 1074

/-- The magnitudes that are too large begin here. -/
def limit : Nat := Nat.pow 2 1024 * one

/-- The distance to the next larger magnitude. -/
def gap (units : Nat) : Nat := Nat.pow 2 (units.log2 - 52)

/-- `num / den`, rounded to the nearest whole number, and to the even one of two. -/
def divideToEven (num den : Nat) : Nat :=
  let low := num / den
  let twice := 2 * (num % den)
  if den < twice ∨ (twice = den ∧ low % 2 = 1) then low + 1 else low

/-- The magnitude nearest to `num / den`; `none` if it is too large. -/
def nearest? (num den : Nat) : Option Nat :=
  let step := gap (num * one / den)
  let units := divideToEven (num * one) (den * step) * step
  if units < limit then some units else none

/-- The magnitude nearest to ten to the power of `exponent`, up to 308. -/
def powerOfTen (exponent : Nat) : Nat := (nearest? (Nat.pow 10 exponent) 1).getD 0

/-- The product of two magnitudes. -/
def mul? (a b : Nat) : Option Nat := nearest? (a * b) (one * one)

/-- The quotient of two magnitudes. -/
def div? (a b : Nat) : Option Nat := nearest? a b

/-- A magnitude times ten to the power of `exponent`, by one multiplication or division as far
as there is a double for the power, and by several divisions below. -/
def scale? (units : Nat) (exponent : Int) : Option Nat :=
  if exponent < -308 then
    if units = 0 then some 0
    else (div? units (powerOfTen 308)).bind (scale? · (exponent + 308))
  else if exponent < 0 then div? units (powerOfTen exponent.natAbs)
  else if exponent ≤ 308 then mul? units (powerOfTen exponent.natAbs)
  else if units = 0 then some 0 else none
termination_by exponent.natAbs
decreasing_by omega

end Binary64

end LogForwarding
