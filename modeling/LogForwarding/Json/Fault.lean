/-
# What can go wrong while JSON is read

A text is read from left to right into the type that is wanted, and reading
stops at the first problem. The text can break the grammar, it can end too
early, or a well-formed part of it can be unfit for what is wanted there. Only
the last has a text that says more.

Key definitions: `Json.Found`, `Json.Misfit`, `Json.ReadFault`,
`Json.foundLayout`, `Json.Misfit.message`.
-/
import LogForwarding.Binary64.Shortest
import LogForwarding.Text.Quoted

namespace LogForwarding.Json

/-- A value that stands where another kind is wanted. -/
inductive Found where
  /-- The word `null`. -/
  | null
  /-- One of the words `true` and `false`. -/
  | boolean (value : Bool)
  /-- A number that fits into 64 bits. -/
  | integer (value : Int)
  /-- Any other number. -/
  | float (value : Binary64)
  /-- A string. -/
  | string (value : String)
  /-- The beginning of an array. -/
  | sequence
  /-- The beginning of an object. -/
  | map
  deriving DecidableEq, Repr

/-- How a part of the text does not fit. -/
inductive Misfit where
  /-- A value is of the wrong type. -/
  | invalidType (found : Found) (expected : String)
  /-- An object lacks a member. -/
  | missingField (key : String)
  /-- An object has a member twice. -/
  | duplicateField (key : String)
  /-- A name is none of those expected. -/
  | unknownVariant (name : String) (expected : List String)
  /-- An array has too few elements. -/
  | invalidLength (length : Nat) (expected : String)
  deriving DecidableEq, Repr

/-- Why a text cannot be read. -/
inductive ReadFault where
  /-- It breaks the grammar. -/
  | malformed
  /-- It ends too early. -/
  | cutShort
  /-- A part of it does not fit. -/
  | misfit (cause : Misfit)
  deriving DecidableEq, Repr

/-- A double that was found stands positionally from 10^-5 to below 10^16, and its exponent has a
sign. -/
def foundLayout : Binary64.Layout := ⟨-5, 15, true⟩

/-- A name or number between backticks. -/
def ticked (s : String) : String := "`" ++ s ++ "`"

/-- A value that stands where another kind is wanted, in words. -/
def Found.describe : Found → String
  | null => "null"
  | boolean value => "boolean " ++ ticked (if value then "true" else "false")
  | integer value => "integer " ++ ticked (toString value)
  | float value => "floating point " ++ ticked (value.text foundLayout)
  | string value => "string " ++ Text.quoted value
  | sequence => "sequence"
  | map => "map"

/-- The text of a misfit. -/
def Misfit.message : Misfit → String
  | invalidType found expected => "invalid type: " ++ found.describe ++ ", expected " ++ expected
  | missingField key => "missing field " ++ ticked key
  | duplicateField key => "duplicate field " ++ ticked key
  | unknownVariant name expected =>
    "unknown variant " ++ ticked name ++ ", expected one of " ++
      String.intercalate ", " (expected.map ticked)
  | invalidLength length expected =>
    "invalid length " ++ toString length ++ ", expected " ++ expected

end LogForwarding.Json
