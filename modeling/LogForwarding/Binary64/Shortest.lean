/-
# The shortest decimal text of a double

A double is shown by the fewest decimal digits that read back as the same
double, and by the nearest of those where there are several. A layout says
where the digits stand positionally, with a fraction of at least one digit;
they stand with an exponent otherwise.

Key definitions: `Binary64.shortest`, `Binary64.Layout`, `Binary64.text`.
-/
import LogForwarding.Binary64.Basic

namespace LogForwarding.Binary64

/-- A decimal number: `digits` times ten to the power of `exponent`. -/
structure Decimal where
  /-- The digits, as a whole number. -/
  digits : Nat
  /-- The power of ten that they count. -/
  exponent : Int
  deriving DecidableEq, Repr

/-- `numerator / denominator` lies between the halves of the gaps around the magnitude: it reads
back as this magnitude. The ends belong to the magnitude with the even significand. -/
def readsBack (units numerator denominator : Nat) : Bool :=
  let g := gap units
  let below := if units = Nat.pow 2 52 * g ∧ 1 < g then g else 2 * g
  -- All is measured in quarters of a unit.
  let value := 4 * numerator * one
  let low := (4 * units - below) * denominator
  let high := (4 * units + 2 * g) * denominator
  if units / g % 2 = 0 then low ≤ value && value ≤ high else low < value && value < high

/-- The multiple of ten to the power of `exponent` nearest to the magnitude among the two around
it that read back, if one does. -/
def onGrid? (units : Nat) (exponent : Int) : Option Nat :=
  let up := Nat.pow 10 exponent.toNat
  let down := Nat.pow 10 (-exponent).toNat
  let numerator := units * down
  let denominator := one * up
  let low := numerator / denominator
  let fits (digits : Nat) := readsBack units (digits * up) down
  match fits low, fits (low + 1) with
  | true, true => some (divideToEven numerator denominator)
  | true, false => some low
  | false, true => some (low + 1)
  | false, false => none

/-- The first hit on a grid as coarse as ten to the power of `exponent` or finer, of `count`
grids. -/
def firstOnGrid (units : Nat) : (exponent : Int) → (count : Nat) → Decimal
  | exponent, 0 => ⟨0, exponent⟩
  | exponent, count + 1 =>
    match onGrid? units exponent with
    | some digits => ⟨digits, exponent⟩
    | none => firstOnGrid units (exponent - 1) count

/-- The decimal number without the zeros at the end of its digits. -/
def Decimal.trim (d : Decimal) : Decimal :=
  if h : d.digits ≠ 0 ∧ d.digits % 10 = 0 then trim ⟨d.digits / 10, d.exponent + 1⟩ else d
termination_by d.digits
decreasing_by show d.digits / 10 < d.digits; omega

/-- The coarsest grid that can hold a digit of the magnitude. -/
def coarsest (units : Nat) : Int :=
  if one ≤ units then ((Nat.toDigits 10 (units / one)).length : Int) - 1
  else 1 - ((Nat.toDigits 10 (one / units)).length : Int)

/-- The fewest digits for a magnitude other than zero. Eighteen grids suffice, since seventeen
significant digits always do. -/
def shortest (units : Nat) : Decimal := (firstOnGrid units (coarsest units) 18).trim

/-- How the digits of a number are laid out. -/
structure Layout where
  /-- The smallest power of ten at which a first digit stands positionally. -/
  lowest : Int
  /-- The largest power of ten at which a first digit stands positionally. -/
  highest : Int
  /-- An exponent that is not negative has a plus sign. -/
  plusSign : Bool
  deriving DecidableEq, Repr

/-- The sign of an exponent. -/
def Layout.sign (layout : Layout) (power : Int) : List Char :=
  if power < 0 then ['-'] else if layout.plusSign then ['+'] else []

/-- The text of a decimal number other than zero. -/
def Decimal.text (layout : Layout) (d : Decimal) : String :=
  let digits := Nat.toDigits 10 d.digits
  -- The power of ten at which the first digit stands.
  let power : Int := digits.length + d.exponent - 1
  let chars :=
    if power < layout.lowest ∨ layout.highest < power then
      let fraction := if digits.length = 1 then [] else ['.'] ++ digits.drop 1
      digits.take 1 ++ fraction ++ ['e'] ++ layout.sign power ++ Nat.toDigits 10 power.natAbs
    else if power < 0 then ['0', '.'] ++ List.replicate (power.natAbs - 1) '0' ++ digits
    else
      let places := power.toNat + 1
      if digits.length ≤ places then
        digits ++ List.replicate (places - digits.length) '0' ++ ['.', '0']
      else digits.take places ++ ['.'] ++ digits.drop places
  String.ofList chars

/-- The text of a double. -/
def text (layout : Layout) (value : Binary64) : String :=
  (if value.negative then "-" else "") ++
    (if value.units = 0 then "0.0" else (shortest value.units).text layout)

end LogForwarding.Binary64
