/-
# Numbers in JSON text

No value of a topology is a number, so a number is read only to say what was
found. Its digits are collected into 64 bits as long as they fit; digits of
the whole part beyond that count as powers of ten, and digits of the fraction
beyond that are dropped. A number without fraction and exponent is an integer
if it fits into 64 bits with its sign, and any other number is a double.

A number that is skipped must only have the form of one.

Key definitions: `Json.number`, `Json.skipNumber`.
-/
import LogForwarding.Json.Reader

namespace LogForwarding.Json

/-- The value of a decimal digit. -/
def digitValue (c : Char) : Nat := c.toNat - '0'.toNat

/-- Digits appended to `significand` as long as it fits into 64 bits, and the digits left over. -/
def collect (significand : Nat) : List Char → Nat × List Char
  | [] => (significand, [])
  | d :: ds =>
    if significand * 10 + digitValue d < Nat.pow 2 64 then
      collect (significand * 10 + digitValue d) ds
    else (significand, d :: ds)

/-- The double `significand · 10 ^ exponent` with the given sign. -/
def double (negative : Bool) (significand : Nat) (exponent : Int) : Except ReadFault Found :=
  match (Binary64.nearest? significand 1).bind (Binary64.scale? · exponent) with
  | some units => .ok (.float ⟨negative, units⟩)
  | none => .error .malformed

/-- A number from the letter of its exponent on. -/
def withExponent (negative : Bool) (significand : Nat) (exponent : Int) (s : List Char) :
    Except ReadFault Found :=
  let (down, s) := match s with
    | '+' :: rest => (false, rest)
    | '-' :: rest => (true, rest)
    | s => (false, s)
  match s.takeWhile Char.isDigit, s with
  | [], [] => .error .cutShort
  | [], _ :: _ => .error .malformed
  | digits, _ =>
    let power := digits.foldl (fun n d => 10 * n + digitValue d) 0
    if power < Nat.pow 2 31 then
      double negative significand (if down then exponent - power else exponent + power)
    else if down ∨ significand = 0 then .ok (.float ⟨negative, 0⟩)
    else .error .malformed

/-- A double from the end of its digits on. -/
def afterDigits (negative : Bool) (significand : Nat) (exponent : Int) :
    List Char → Except ReadFault Found
  | 'e' :: rest | 'E' :: rest => withExponent negative significand exponent rest
  | _ => double negative significand exponent

/-- A number from the point on; `exponent` counts the digits of its whole part that were left
over. -/
def withFraction (negative : Bool) (significand : Nat) (exponent : Int) (s : List Char) :
    Except ReadFault Found :=
  match s.takeWhile Char.isDigit, s with
  | [], [] => .error .cutShort
  | [], _ :: _ => .error .malformed
  | digits, _ =>
    let (significand, left) := collect significand digits
    afterDigits negative significand (exponent - (digits.length - left.length : Nat))
      (s.dropWhile Char.isDigit)

/-- An integer that fits into 64 bits with its sign, and the double otherwise. There is no
integer that is a negative zero. -/
def integer (negative : Bool) (significand : Nat) : Except ReadFault Found :=
  if ¬ negative then .ok (.integer significand)
  else if 0 < significand ∧ significand ≤ Nat.pow 2 63 then .ok (.integer (-significand))
  else double negative significand 0

/-- A number after its sign. What follows it is not looked at. -/
def unsigned (negative : Bool) (s : List Char) : Except ReadFault Found :=
  let digits := s.takeWhile Char.isDigit
  match digits with
  | [] => if s = [] then .error .cutShort else .error .malformed
  | '0' :: _ :: _ => .error .malformed
  | _ =>
    let (significand, left) := collect 0 digits
    match s.dropWhile Char.isDigit with
    | '.' :: rest => withFraction negative significand left.length rest
    | rest@('e' :: _) | rest@('E' :: _) => afterDigits negative significand left.length rest
    | rest =>
      if left = [] then integer negative significand
      else afterDigits negative significand left.length rest

/-- A number. -/
def number : List Char → Except ReadFault Found
  | '-' :: rest => unsigned true rest
  | s => unsigned false s

/-- Skip one or more digits. -/
def skipDigits : Reader Unit := fun s =>
  match s with
  | [] => .error .malformed
  | c :: rest =>
    if c.isDigit then
      .ok ⟨(), rest.dropWhile Char.isDigit,
        Nat.lt_succ_of_le (List.dropWhile_sublist Char.isDigit).length_le⟩
    else .error .malformed

/-- Skip an exponent, if there is one. -/
def skipExponent (s : List Char) : Except ReadFault (Left s) :=
  match s with
  | 'e' :: '+' :: rest | 'e' :: '-' :: rest | 'E' :: '+' :: rest | 'E' :: '-' :: rest
  | 'e' :: rest | 'E' :: rest =>
    (skipDigits rest).map fun r => ⟨r.rest, by
      have := r.shorter; simp only [List.length_cons]; omega⟩
  | s => .ok (Left.all s)

/-- Skip a fraction and an exponent, as far as they are there. -/
def skipFraction (s : List Char) : Except ReadFault (Left s) :=
  match s with
  | '.' :: rest =>
    match skipDigits rest with
    | .error fault => .error fault
    | .ok digits =>
      (skipExponent digits.rest).map fun r => ⟨r.1, by
        have := r.2; have := digits.shorter; simp only [List.length_cons]; omega⟩
  | s => skipExponent s

/-- Skip a number, after its sign. -/
def skipUnsigned : Reader Unit := fun s =>
  match s with
  | '0' :: rest =>
    if (rest.takeWhile Char.isDigit) = [] then
      (skipFraction rest).map fun r => ⟨(), r.1, by
        have := r.2; simp only [List.length_cons]; omega⟩
    else .error .malformed
  | s =>
    match skipDigits s with
    | .error fault => .error fault
    | .ok digits =>
      (skipFraction digits.rest).map fun r => ⟨(), r.1, by
        have := r.2; have := digits.shorter; omega⟩

/-- Skip a number. -/
def skipNumber : Reader Unit := fun s =>
  match s with
  | '-' :: rest => (skipUnsigned rest).map (·.widen (by simp))
  | s => skipUnsigned s

end LogForwarding.Json
